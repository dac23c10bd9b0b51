import Mathlib.Data.Nat.Digits.Defs
import Mathlib.Order.Bounds.Defs
import PageLog.Proofs.RecordFormat

/-!
# Reading variable-length numbers

What a reader makes of a byte string depends on where the first byte stands that does not go on.
If at most nine bytes are in front of it, these and it are a number, unless it is the tenth byte and
has bits that no 64-bit number has; if there is none among ten bytes, or none at all, there is no
number.  The shortest form of a number has as many bytes as the number has groups of seven bits.

## Main definitions

* `Varint.groups` — what the groups of seven bits in a byte string add up to.
* `Varint.GoOn` — bytes none of which is the last of a number.
* `Varint.Flaw` — why there is no number at the beginning of a byte string.
* `Cursor.within` — the cursor at an offset of a byte string.

## Main results

* `Varint.form_iff` — the forms of numbers, byte by byte.
* `Varint.length_encode_le_iff` — the length of the shortest form.
* `Cursor.varint_eq_ok_iff`, `Cursor.varint_eq_error_iff` — what is read from a place in a byte
  string.
* `varints_are_exact` — **numbers are read as they are written, and nothing else is a number.**
-/

namespace PageLog

namespace Varint

/-- What the groups of seven bits add up to, least significant first. -/
def groups (bs : Bytes) : Nat := Nat.ofDigits 128 (bs.map fun b => b.toNat % 128)

/-- Every byte says that another one follows. -/
def GoOn (bs : Bytes) : Prop := ∀ b ∈ bs, 128 ≤ b.toNat

@[simp] theorem groups_cons (b : UInt8) (bs : Bytes) :
    groups (b :: bs) = b.toNat % 128 + 128 * groups bs := Nat.ofDigits_cons ..

theorem goOn_nil : GoOn [] := List.forall_mem_nil _

theorem goOn_cons {b : UInt8} {bs : Bytes} : GoOn (b :: bs) ↔ 128 ≤ b.toNat ∧ GoOn bs :=
  List.forall_mem_cons

/-! ### Forms byte by byte -/

theorem Spells.exists_front {bs : Bytes} {n : Nat} (h : Spells bs n) :
    ∃ front last, bs = front ++ [last] ∧ GoOn front ∧ last.toNat < 128 ∧ groups bs = n := by
  induction h with
  | @last b hb => exact ⟨[], b, rfl, goOn_nil, hb, by simp [groups, Nat.mod_eq_of_lt hb]⟩
  | @more b bs n hb _ ih =>
    obtain ⟨front, last, rfl, hfront, hlast, hsum⟩ := ih
    refine ⟨b :: front, last, rfl, goOn_cons.2 ⟨hb, hfront⟩, hlast, ?_⟩
    rw [groups_cons, hsum]

theorem spells_groups {front : Bytes} {last : UInt8} (hfront : GoOn front)
    (hlast : last.toNat < 128) : Spells (front ++ [last]) (groups (front ++ [last])) := by
  induction front with
  | nil =>
    have hsum : groups [last] = last.toNat := by simp [groups, Nat.mod_eq_of_lt hlast]
    rw [List.nil_append, hsum]
    exact .last hlast
  | cons b front ih =>
    obtain ⟨hb, hfront⟩ := goOn_cons.1 hfront
    rw [List.cons_append, groups_cons]
    exact .more hb (ih hfront)

/-- A form of a number is at most nine bytes that go on and one that does not, and the number is
what their groups add up to. -/
theorem form_iff {bs : Bytes} {n : Nat} :
    Form bs n ↔ ∃ front last, bs = front ++ [last] ∧ front.length ≤ 9 ∧ GoOn front ∧
      last.toNat < 128 ∧ groups bs = n ∧ n < 2 ^ 64 := by
  constructor
  · intro h
    obtain ⟨front, last, rfl, hfront, hlast, hsum⟩ := h.spells.exists_front
    have hshort := h.short
    rw [List.length_append, List.length_singleton] at hshort
    exact ⟨front, last, rfl, Nat.le_of_succ_le_succ hshort, hfront, hlast, hsum, h.bits⟩
  · rintro ⟨front, last, rfl, hshort, hfront, hlast, rfl, hbits⟩
    refine ⟨spells_groups hfront hlast, ?_, hbits⟩
    rw [List.length_append, List.length_singleton]
    exact Nat.succ_le_succ hshort

/-! ### The shortest form -/

theorem spells_encode (n : Nat) : Spells (encode n) n := by
  induction n using Nat.strong_induction_on with
  | _ n ih =>
    by_cases hn : n < 128
    · have hbyte := toNat_byte (n := n) (by omega)
      have hlast := Spells.last (b := UInt8.ofNat n) (by omega)
      rwa [hbyte, ← encode_of_lt hn] at hlast
    · have hbyte := toNat_byte (n := n % 128 + 128) (by omega)
      have hmore := Spells.more (b := UInt8.ofNat (n % 128 + 128)) (by omega)
        (ih (n / 128) (by omega))
      have hvalue : (n % 128 + 128) % 128 + 128 * (n / 128) = n := by omega
      rwa [hbyte, hvalue, ← encode_of_ge (Nat.not_lt.1 hn)] at hmore

theorem length_encode_pos (n : Nat) : 0 < (encode n).length :=
  List.length_pos_iff.2 (spells_encode n).ne_nil

/-- The shortest form has as many bytes as the number has groups of seven bits. -/
theorem length_encode_le_iff (n k : Nat) : (encode n).length ≤ k + 1 ↔ n < 128 ^ (k + 1) := by
  -- induction on the groups, from the least significant one
  induction k generalizing n with
  | zero =>
    by_cases hn : n < 128
    · simp [encode_of_lt hn, hn]
    · have hpos := length_encode_pos (n / 128)
      rw [encode_of_ge (Nat.not_lt.1 hn), List.length_cons]
      omega
  | succ k ih =>
    by_cases hn : n < 128
    · have hpow : 128 ^ 1 ≤ 128 ^ (k + 1 + 1) := Nat.pow_le_pow_right (by decide) (by omega)
      simp only [encode_of_lt hn, List.length_singleton]
      omega
    · rw [encode_of_ge (Nat.not_lt.1 hn), List.length_cons, Nat.add_le_add_iff_right, ih,
        Nat.pow_succ _ (k + 1), Nat.div_lt_iff_lt_mul (by decide)]

theorem isLeast_length_encode (n : Nat) :
    IsLeast {k | 0 < k ∧ n < 2 ^ (7 * k)} (encode n).length := by
  have hpow : ∀ k, 2 ^ (7 * k) = 128 ^ k := fun k => Nat.pow_mul 2 7 k
  constructor
  · obtain ⟨k, hk⟩ := Nat.exists_eq_add_of_le' (length_encode_pos n)
    refine ⟨length_encode_pos n, ?_⟩
    rw [hpow, hk]
    exact (length_encode_le_iff n k).1 (Nat.le_of_eq hk)
  · rintro k ⟨hpos, hk⟩
    obtain ⟨k, rfl⟩ := Nat.exists_eq_add_of_le' hpos
    rw [hpow] at hk
    exact (length_encode_le_iff n k).2 hk

/-- The shortest form of a 64-bit number is one of its forms. -/
theorem form_encode (v : UInt64) : Form (encode v.toNat) v.toNat := by
  refine ⟨spells_encode _, ?_, v.toNat_lt⟩
  have hbits : v.toNat < 128 ^ (9 + 1) := Nat.lt_trans v.toNat_lt (by norm_num)
  exact (length_encode_le_iff _ _).2 hbits

/-! ### No number -/

/-- There is no number at the beginning of the bytes. -/
inductive Flaw (bs : Bytes) : Damage → Prop
  /-- The bytes end before the number does. -/
  | truncated (hshort : bs.length < maxLength) (hfront : GoOn bs) : Flaw bs .varintTruncated
  /-- The tenth byte has bits that no number of 64 bits has. -/
  | overflow {front rest : Bytes} {b : UInt8} (hbytes : bs = front ++ b :: rest)
      (hnine : front.length = 9) (hfront : GoOn front) (hb : 1 < b.toNat % 128) :
      Flaw bs .varintOverflow
  /-- Ten bytes go on. -/
  | tooLong {front rest : Bytes} {b : UInt8} (hbytes : bs = front ++ b :: rest)
      (hnine : front.length = 9) (hfront : GoOn (front ++ [b])) (hb : b.toNat % 128 ≤ 1) :
      Flaw bs .varintTooLong

/-- Bytes that go on are passed, as long as they are not the last that may be read. -/
theorem decodeFrom_append {front : Bytes} (hfront : GoOn front) (left shift acc : Nat)
    (rest : Bytes) :
    decodeFrom (front.length + (left + 1)) shift acc (front ++ rest) =
      decodeFrom (left + 1) (shift + 7 * front.length) (acc + groups front * 2 ^ shift) rest := by
  induction front generalizing shift acc with
  | nil => simp [groups]
  | cons b front ih =>
    obtain ⟨hb, hfront⟩ := goOn_cons.1 hfront
    have hlength : (b :: front).length + (left + 1) = front.length + (left + 1) + 1 := by
      rw [List.length_cons]
      omega
    have hfits : ¬(front.length + (left + 1) = 0 ∧ 1 < b.toNat % 128) := by omega
    have hsum : acc + b.toNat % 128 * 2 ^ shift + groups front * 2 ^ (shift + 7) =
        acc + groups (b :: front) * 2 ^ shift := by
      rw [groups_cons]
      ring
    have hshift : shift + 7 + 7 * front.length = shift + 7 * (b :: front).length := by
      rw [List.length_cons]
      omega
    rw [hlength, List.cons_append, decodeFrom_cons, if_neg hfits, if_neg (Nat.not_lt.2 hb),
      ih hfront, Nat.shiftLeft_eq, hsum, hshift]

/-- Nine bytes that go on are passed. -/
theorem decode_nine {front : Bytes} (hnine : front.length = 9) (hfront : GoOn front)
    (rest : Bytes) : decode (front ++ rest) = decodeFrom 1 63 (groups front) rest := by
  have hpass := decodeFrom_append hfront 0 0 0 rest
  rw [hnine, Nat.pow_zero, Nat.mul_one, Nat.zero_add (groups front)] at hpass
  exact hpass

/-- A reader that finds no number stands behind ten bytes, or at the end. -/
theorem Flaw.decode {bs : Bytes} {damage : Damage} (h : Flaw bs damage) :
    decode bs = ⟨.error damage, bs.drop maxLength⟩ := by
  cases h with
  | truncated hshort hfront =>
    obtain ⟨left, hleft⟩ : ∃ left, maxLength = bs.length + (left + 1) :=
      ⟨maxLength - bs.length - 1, by omega⟩
    have hpass := decodeFrom_append hfront left 0 0 []
    rw [List.append_nil, ← hleft] at hpass
    rw [List.drop_of_length_le (Nat.le_of_lt hshort)]
    exact hpass
  | @overflow front rest b hbytes hnine hfront hb =>
    subst hbytes
    have hrest : (front ++ b :: rest).drop maxLength = rest := by
      rw [List.append_cons, List.drop_left' (by simp [hnine, maxLength])]
    rw [decode_nine hnine hfront, decodeFrom_cons, if_pos ⟨rfl, hb⟩, hrest]
  | @tooLong front rest b hbytes hnine hfront hb =>
    subst hbytes
    have hrest : (front ++ b :: rest).drop maxLength = rest := by
      rw [List.append_cons, List.drop_left' (by simp [hnine, maxLength])]
    obtain ⟨hfront, hlast⟩ := List.forall_mem_append.1 hfront
    have hgoes : 128 ≤ b.toNat := hlast b (List.mem_singleton_self b)
    rw [decode_nine hnine hfront, decodeFrom_cons, if_neg (by omega), if_neg (Nat.not_lt.2 hgoes),
      hrest]
    rfl

theorem groups_lt (bs : Bytes) : groups bs < 128 ^ bs.length := by
  have hdigits : ∀ d ∈ bs.map fun b => b.toNat % 128, d < 128 := by
    intro d hd
    obtain ⟨b, -, rfl⟩ := List.mem_map.1 hd
    exact Nat.mod_lt _ (by decide)
  have hlt := Nat.ofDigits_lt_base_pow_length (by decide) hdigits
  rwa [List.length_map] at hlt

theorem groups_snoc (front : Bytes) (last : UInt8) :
    groups (front ++ [last]) = groups front + 128 ^ front.length * (last.toNat % 128) := by
  simp [groups, Nat.ofDigits_append]

/-- At most nine bytes that go on and one that does not are a form, unless the tenth byte has too
many bits. -/
theorem form_of_goOn {front : Bytes} {last : UInt8} (hfront : GoOn front) (hlast : last.toNat < 128)
    (hshort : front.length ≤ 9) (htenth : front.length = 9 → last.toNat ≤ 1) :
    Form (front ++ [last]) (groups (front ++ [last])) := by
  refine form_iff.2 ⟨front, last, rfl, hshort, hfront, hlast, rfl, ?_⟩
  by_cases hnine : front.length = 9
  · have hlt := groups_lt front
    have htop := htenth hnine
    rw [groups_snoc, Nat.mod_eq_of_lt hlast]
    rw [hnine] at hlt ⊢
    omega
  · have hlt := groups_lt (front ++ [last])
    have hpow : 128 ^ (front ++ [last]).length ≤ 128 ^ 9 := by
      refine Nat.pow_le_pow_right (by decide) ?_
      rw [List.length_append, List.length_singleton]
      omega
    omega

/-- If not all bytes go on, there is a first that does not. -/
theorem exists_last {bs : Bytes} (h : ¬GoOn bs) :
    ∃ front last rest, bs = front ++ last :: rest ∧ GoOn front ∧ last.toNat < 128 := by
  induction bs with
  | nil => exact absurd goOn_nil h
  | cons b bs ih =>
    by_cases hb : b.toNat < 128
    · exact ⟨[], b, bs, rfl, goOn_nil, hb⟩
    · have hb := Nat.not_lt.1 hb
      obtain ⟨front, last, rest, rfl, hfront, hlast⟩ := ih fun hbs => h (goOn_cons.2 ⟨hb, hbs⟩)
      exact ⟨b :: front, last, rest, rfl, goOn_cons.2 ⟨hb, hfront⟩, hlast⟩

/-- Bytes begin with a number or have a flaw. -/
theorem form_or_flaw (bs : Bytes) :
    (∃ tag n rest, Form tag n ∧ bs = tag ++ rest) ∨ ∃ damage, Flaw bs damage := by
  by_cases hgo : GoOn (bs.take 9)
  · cases hbehind : bs.drop 9 with
    | nil =>
      -- all bytes go on and there are fewer than ten, so that the number is cut short
      have hlength : bs.length ≤ 9 := List.drop_eq_nil_iff.1 hbehind
      rw [List.take_of_length_le hlength] at hgo
      exact .inr ⟨_, .truncated (Nat.lt_succ_of_le hlength) hgo⟩
    | cons b rest =>
      -- the tenth byte decides
      have hbytes : bs = bs.take 9 ++ b :: rest := by rw [← hbehind, List.take_append_drop]
      have hnine : (bs.take 9).length = 9 := by
        have hlength := congrArg List.length hbehind
        rw [List.length_drop, List.length_cons] at hlength
        rw [List.length_take]
        omega
      by_cases hbits : 1 < b.toNat % 128
      · exact .inr ⟨_, .overflow hbytes hnine hgo hbits⟩
      by_cases hb : b.toNat < 128
      · refine .inl ⟨bs.take 9 ++ [b], _, rest, form_of_goOn hgo hb (Nat.le_of_eq hnine) ?_, ?_⟩
        · intro _
          omega
        · rwa [List.append_assoc]
      · refine .inr ⟨_, .tooLong hbytes hnine (List.forall_mem_append.2 ⟨hgo, ?_⟩) (by omega)⟩
        exact goOn_cons.2 ⟨Nat.not_lt.1 hb, goOn_nil⟩
  · -- one of the first nine bytes is the last of the number
    obtain ⟨front, last, rest, hnine, hfront, hlast⟩ := exists_last hgo
    have hshort : front.length < 9 := by
      have hlength := congrArg List.length hnine
      rw [List.length_take, List.length_append, List.length_cons] at hlength
      omega
    refine .inl ⟨front ++ [last], _, rest ++ bs.drop 9,
      form_of_goOn hfront hlast (Nat.le_of_lt hshort) ?_, ?_⟩
    · intro hlength
      omega
    · rw [← List.append_assoc, List.append_assoc front, List.singleton_append, ← hnine,
        List.take_append_drop]

end Varint

/-! ### Numbers in a longer byte string -/

namespace Cursor

/-- The cursor at an offset of a byte string. -/
def within (src : Bytes) (off : Nat) : Cursor := ⟨off, src.drop off⟩

theorem within_add (src : Bytes) (off n : Nat) :
    within src (off + n) = ⟨off + n, (src.drop off).drop n⟩ := by
  rw [within, List.drop_drop]

variable {src : Bytes} {off : Nat}

/-- A number is read just when one of its forms is there, and the reader stands behind it. -/
theorem varint_eq_ok_iff {v : UInt64} {c : Cursor} :
    varint (within src off) = .ok v c ↔
      ∃ tag, Varint.Form tag v.toNat ∧ (src.drop off).take tag.length = tag ∧
        c = within src (off + tag.length) := by
  have hread : ∀ {tag : Bytes}, Varint.Form tag v.toNat → ∀ rest,
      varint ⟨off, tag ++ rest⟩ = .ok v ⟨off + tag.length, rest⟩ := by
    intro tag hform rest
    rw [reads_form hform off rest, UInt64.ofNat_toNat]
  constructor
  · intro h
    obtain ⟨tag, hform, hbytes⟩ := form_of_varint h
    have hbytes : src.drop off = tag ++ c.rest := hbytes
    refine ⟨tag, hform, by rw [hbytes, List.take_left], ?_⟩
    rw [within, hbytes, hread hform c.rest] at h
    rw [within_add, hbytes, List.drop_left, (EStateM.Result.ok.inj h).2]
  · rintro ⟨tag, hform, hbytes, rfl⟩
    have hsplit : src.drop off = tag ++ (src.drop off).drop tag.length := by
      conv_lhs => rw [← List.take_append_drop tag.length (src.drop off), hbytes]
    rw [within_add, within, hsplit, hread hform, ← hsplit]

/-- Reading fails just when the bytes have a flaw, and the reader stands behind ten bytes, or at the
end. -/
theorem varint_eq_error_iff {e : Error} {c : Cursor} :
    varint (within src off) = .error e c ↔
      ∃ damage, e = .corruption damage ∧ Varint.Flaw (src.drop off) damage ∧
        c = within src (off + min Varint.maxLength (src.drop off).length) := by
  -- the reader counts its place, and what is left tells the place as well
  have hbehind : within src (off + min Varint.maxLength (src.drop off).length) =
      ⟨off + ((src.drop off).length - ((src.drop off).drop Varint.maxLength).length),
        (src.drop off).drop Varint.maxLength⟩ := by
    rw [within_add, ← List.drop_eq_drop_min, List.length_drop (i := Varint.maxLength)]
    congr 2
    omega
  have hfails : ∀ {damage : Damage}, Varint.Flaw (src.drop off) damage →
      varint (within src off) = .error (.corruption damage)
        (within src (off + min Varint.maxLength (src.drop off).length)) := by
    intro damage hflaw
    rw [hbehind]
    simp only [varint, within, hflaw.decode]
  constructor
  · intro h
    rcases Varint.form_or_flaw (src.drop off) with ⟨tag, n, rest, hform, hbytes⟩ | ⟨damage, hflaw⟩
    · rw [within, hbytes, reads_form hform] at h
      cases h
    · rw [hfails hflaw] at h
      cases h
      exact ⟨damage, rfl, hflaw, rfl⟩
  · rintro ⟨damage, rfl, hflaw, rfl⟩
    exact hfails hflaw

end Cursor

/-- **Numbers are read as they are written, and nothing else is a number.**  A number is read from
its shortest form wherever that stands, and the reader is then behind it; the shortest form has one
byte for each group of seven bits.  From any place of any byte string, what is read as a number is
at most nine bytes that go on and one that does not, whose groups add up to the number, and all of
these are read; where there is none, reading fails.  The reader never passes more than ten bytes,
nor the end of the string. -/
theorem varints_are_exact :
    (∀ (v : UInt64) (before after : Bytes),
      let tag := Varint.encode v.toNat
      let src := before ++ (tag ++ after)
      Cursor.varint (.within src before.length) =
        .ok v (.within src (before.length + tag.length)) ∧
      IsLeast {k | 0 < k ∧ v.toNat < 2 ^ (7 * k)} tag.length ∧ tag.length ≤ 10) ∧
    ∀ (src : Bytes) (off : Nat),
      (∀ v off', Cursor.varint (.within src off) = .ok v (.within src off') ↔
        ∃ front last, off' = off + (front.length + 1) ∧
          (src.drop off).take (front.length + 1) = front ++ [last] ∧ front.length ≤ 9 ∧
          (∀ b ∈ front, 128 ≤ b.toNat) ∧ last.toNat < 128 ∧
          Varint.groups (front ++ [last]) = v.toNat) ∧
      (∀ e off', Cursor.varint (.within src off) = .error e (.within src off') ↔
        ∃ damage, e = .corruption damage ∧ Varint.Flaw (src.drop off) damage ∧
          off' = off + min 10 (src.drop off).length) ∧
      ∃ off', Cursor.varint.left (.within src off) = .within src off' ∧
        off ≤ off' ∧ off' ≤ off + 10 ∧ off' ≤ max off src.length := by
  refine ⟨?_, ?_⟩
  · -- a number that was written, wherever it stands
    intro v before after tag src
    have hshort : tag.length ≤ 10 := (Varint.form_encode v).short
    refine ⟨Cursor.varint_eq_ok_iff.2 ⟨tag, Varint.form_encode v, ?_, rfl⟩,
      Varint.isLeast_length_encode _, hshort⟩
    rw [List.drop_left, List.take_left]
  -- any bytes at all
  intro src off
  refine ⟨?_, ?_, ?_⟩
  · intro v off'
    rw [Cursor.varint_eq_ok_iff]
    constructor
    · rintro ⟨tag, hform, hbytes, hoff⟩
      obtain ⟨front, last, rfl, hshort, hfront, hlast, hsum, -⟩ := Varint.form_iff.1 hform
      rw [List.length_append, List.length_singleton] at hbytes hoff
      exact ⟨front, last, congrArg Cursor.off hoff, hbytes, hshort, hfront, hlast, hsum⟩
    · rintro ⟨front, last, rfl, hbytes, hshort, hfront, hlast, hsum⟩
      refine ⟨front ++ [last], ?_, ?_, ?_⟩
      · exact Varint.form_iff.2 ⟨front, last, rfl, hshort, hfront, hlast, hsum, v.toNat_lt⟩
      · rwa [List.length_append, List.length_singleton]
      · rw [List.length_append, List.length_singleton]
  · intro e off'
    rw [Cursor.varint_eq_error_iff]
    constructor
    · rintro ⟨damage, he, hflaw, hoff⟩
      exact ⟨damage, he, hflaw, congrArg Cursor.off hoff⟩
    · rintro ⟨damage, he, hflaw, rfl⟩
      exact ⟨damage, he, hflaw, rfl⟩
  · -- either way the reader has passed no more bytes than there are, and at most ten
    cases hread : Cursor.varint (.within src off) with
    | ok v c =>
      obtain ⟨tag, hform, hbytes, rfl⟩ := Cursor.varint_eq_ok_iff.1 hread
      have hlength := congrArg List.length hbytes
      have hshort := hform.short
      rw [List.length_take, List.length_drop] at hlength
      refine ⟨_, Act.left_of_ok hread, Nat.le_add_right .., Nat.add_le_add_left hshort off, ?_⟩
      omega
    | error e c =>
      obtain ⟨damage, -, -, rfl⟩ := Cursor.varint_eq_error_iff.1 hread
      have hshort : min Varint.maxLength (src.drop off).length ≤ 10 := Nat.min_le_left ..
      refine ⟨_, Act.left_of_error hread, Nat.le_add_right .., Nat.add_le_add_left hshort off, ?_⟩
      rw [List.length_drop]
      omega

end PageLog
