import PageLog.Version.Snapshot

/-!
# What cleanup leaves a snapshot to read

A row version that was replaced may be removed once its counter is not above the cleanup bound of a
snapshot.  The bound lies below the counters of the snapshot's own transaction and of all that were
running with it, so that the snapshot sees every version up to the bound.  It sees the version that
came in place of the removed one as well if that is not above the bound either; nothing is said of
a version above the bound, whose transaction may have been running or may have come later.

## Main definitions

* `Version.Newer` — a version may come in place of another.
* `Snapshot.Bounded` — the cleanup bound lies below all transactions that were running.
* `Snapshot.OutOfReach` — a version above the bound that the snapshot's transaction cannot read.

## Main results

* `Snapshot.isVisible_iff`, `Snapshot.isCleanable_iff` — what a snapshot sees, and what may go.
* `Snapshot.Bounded.isVisible_of_isCleanable` — what may go is seen as long as it is there.
* `Snapshot.cleanup_leaves_version_iff` — **when a snapshot can still read a row after cleanup**.
-/

namespace PageLog

/-- The version `n` was written after `v`: by a later transaction, or in a later operation of the
same one. -/
def Version.Newer (n v : Version) : Prop :=
  v.compare n = .lt ∨ v.same n = true ∧ v.operation < n.operation

instance (n v : Version) : Decidable (n.Newer v) := inferInstanceAs (Decidable (_ ∨ _))

namespace Snapshot

/-! ### What a snapshot sees, and what may go -/

/-- A snapshot sees what was written under earlier coordinators, and under its own what older
transactions wrote that were not running and what its own transaction wrote before. -/
theorem isVisible_iff {s : Snapshot} {v : Version} :
    s.isVisible v = true ↔
      v.coordinator < s.version.coordinator ∨
        v.coordinator = s.version.coordinator ∧
          (v.counter < s.version.counter ∧ v.counter ∉ s.active ∨
            v.counter = s.version.counter ∧ v.operation < s.version.operation) := by
  unfold isVisible isActive
  cases hcompare : Ord.compare v.coordinator s.version.coordinator with
  | lt =>
    have hlt := Std.compare_eq_lt.1 hcompare
    simp [hlt]
  | gt =>
    have hgt := Std.compare_eq_gt.1 hcompare
    have hne : v.coordinator ≠ s.version.coordinator := fun heq => UInt64.lt_irrefl _ (heq ▸ hgt)
    simp [hne, UInt64.not_lt.2 (UInt64.le_of_lt hgt)]
  | eq =>
    have heq := Std.compare_eq_iff_eq.1 hcompare
    by_cases hown : v.counter = s.version.counter
    · simp [heq, hown]
    · simp [heq, hown]

/-- A version may go if it is of an earlier coordinator, or of the snapshot's own and not above the
bound. -/
theorem isCleanable_iff {s : Snapshot} {v : Version} :
    s.isCleanable v = true ↔
      v.coordinator < s.version.coordinator ∨
        v.coordinator = s.version.coordinator ∧ v.counter ≤ s.cleanup := by
  simp [isCleanable]

/-! ### Bounds below all that were running -/

/-- The cleanup bound lies below the counters of the snapshot's own transaction and of all that
were running. -/
structure Bounded (s : Snapshot) : Prop where
  /-- The snapshot's own transaction came after the bound. -/
  own : s.cleanup < s.version.counter
  /-- So did all that were running. -/
  active : ∀ c ∈ s.active, s.cleanup < c

-- the numbers that were running are gone through, not all 64-bit numbers
instance (s : Snapshot) : Decidable s.Bounded :=
  have : Decidable (∀ c ∈ s.active, s.cleanup < c) := List.decidableBAll (s.cleanup < ·) s.active
  decidable_of_iff (s.cleanup < s.version.counter ∧ ∀ c ∈ s.active, s.cleanup < c)
    ⟨fun h => ⟨h.1, h.2⟩, fun h => ⟨h.own, h.active⟩⟩

/-- A version up to the bound was written by a transaction that had ended before the snapshot's
began. -/
theorem Bounded.settled {s : Snapshot} (hs : s.Bounded) {c : UInt64} (hc : c ≤ s.cleanup) :
    c < s.version.counter ∧ c ∉ s.active := by
  constructor
  · exact UInt64.lt_of_le_of_lt hc hs.own
  · intro hrunning
    exact UInt64.not_lt.2 hc (hs.active c hrunning)

/-- What may go is seen as long as it is there. -/
theorem Bounded.isVisible_of_isCleanable {s : Snapshot} (hs : s.Bounded) {v : Version}
    (hv : s.isCleanable v = true) : s.isVisible v = true := by
  rw [isVisible_iff]
  obtain hearlier | ⟨hsame, hle⟩ := isCleanable_iff.1 hv
  · exact .inl hearlier
  · exact .inr ⟨hsame, .inl (hs.settled hle)⟩

/-! ### What comes in place of a removed version -/

/-- The version is above the bound, and was written under a later coordinator, by a later
transaction, by one that was running, or by the snapshot's own in its present operation or after
it. -/
def OutOfReach (s : Snapshot) (n : Version) : Prop :=
  s.version.coordinator < n.coordinator ∨
    n.coordinator = s.version.coordinator ∧ s.cleanup < n.counter ∧
      (s.version.counter < n.counter ∨
        n.counter < s.version.counter ∧ n.counter ∈ s.active ∨
        n.counter = s.version.counter ∧ s.version.operation ≤ n.operation)

/-- A snapshot sees all versions but those out of its reach. -/
theorem Bounded.isVisible_iff_not_outOfReach {s : Snapshot} (hs : s.Bounded) {n : Version} :
    s.isVisible n = true ↔ ¬s.OutOfReach n := by
  constructor
  · intro hseen hout
    obtain hearlier | ⟨hsame, hseen⟩ := isVisible_iff.1 hseen
    · -- under an earlier coordinator nothing is out of reach
      obtain hlater | ⟨hsame, -⟩ := hout
      · exact UInt64.lt_asymm hearlier hlater
      · exact UInt64.ne_of_lt hearlier hsame
    · obtain hlater | ⟨-, -, hout⟩ := hout
      · exact UInt64.ne_of_lt hlater hsame.symm
      · grind
  · intro hin
    cases hseen : s.isVisible n with
    | true => rfl
    | false =>
      -- what is not seen is above the bound, since all that is not above it is seen
      have habove : ¬s.isCleanable n = true := by
        intro hn
        rw [hs.isVisible_of_isCleanable hn] at hseen
        cases hseen
      have hunseen := (not_congr isVisible_iff).1 (Bool.eq_false_iff.1 hseen)
      rw [isCleanable_iff] at habove
      refine absurd ?_ hin
      unfold OutOfReach
      grind

/-- **When a snapshot can still read a row after cleanup.**  The cleanup bound lies below all that
was running.  Where the snapshot lets a row version be removed because another came in its place, it
sees the removed version, and it sees the other just if that is not out of its reach.  It always
sees one that may be removed itself. -/
theorem cleanup_leaves_version_iff {s : Snapshot} (hs : s.Bounded) {row : HistoryRow}
    (hreplaced : row.isSuperseded = true) (hclean : s.isCleanable row.version = true) :
    s.isVisible row.version = true ∧
      ∃ n, row.replacedBy = some n ∧ (s.isVisible n = true ↔ ¬s.OutOfReach n) ∧
        (s.isCleanable n = true → s.isVisible n = true) := by
  obtain ⟨n, hn⟩ := Option.isSome_iff_exists.1 hreplaced
  exact ⟨hs.isVisible_of_isCleanable hclean, n, hn, hs.isVisible_iff_not_outOfReach,
    hs.isVisible_of_isCleanable⟩

/-- A version of transaction 80 that transaction 89 replaced, below the bound 90 of a snapshot that
transaction 100 took while 95 and 97 were running. -/
theorem cleanup_leaves_version_iff_below_bound :
    (⟨⟨5, 100, 3⟩, 90, [95, 97]⟩ : Snapshot).Bounded ∧
      (⟨16, ⟨5, 80, 0⟩, some ⟨5, 89, 2⟩⟩ : HistoryRow).isSuperseded = true ∧
      (⟨⟨5, 100, 3⟩, 90, [95, 97]⟩ : Snapshot).isCleanable ⟨5, 80, 0⟩ = true ∧
      (⟨⟨5, 100, 3⟩, 90, [95, 97]⟩ : Snapshot).isVisible ⟨5, 89, 2⟩ = true := by
  have hbounded : (⟨⟨5, 100, 3⟩, 90, [95, 97]⟩ : Snapshot).Bounded := by decide
  have hclean : (⟨⟨5, 100, 3⟩, 90, [95, 97]⟩ : Snapshot).isCleanable ⟨5, 80, 0⟩ = true := by decide
  obtain ⟨-, n, hn, -, hkept⟩ := @cleanup_leaves_version_iff _ hbounded
    ⟨16, ⟨5, 80, 0⟩, some ⟨5, 89, 2⟩⟩ rfl hclean
  cases hn
  exact ⟨hbounded, rfl, hclean, hkept (by decide)⟩

/-- What may go is not always replaced by what the snapshot sees: transaction 101 came after the
one that took the snapshot, which goes on reading what transaction 80 wrote. -/
theorem cleanup_takes_version_read :
    ¬∀ (s : Snapshot) (row : HistoryRow) (n : Version), s.Bounded → row.replacedBy = some n →
      n.Newer row.version → row.isSuperseded = true → s.isCleanable row.version = true →
      s.isVisible row.version = true → s.isVisible n = true := by
  intro hkeeps
  have hseen := hkeeps ⟨⟨5, 100, 3⟩, 90, [95, 97]⟩ ⟨16, ⟨5, 80, 0⟩, some ⟨5, 101, 0⟩⟩ ⟨5, 101, 0⟩
    (by decide) rfl (by decide) rfl (by decide) (by decide)
  revert hseen
  decide

end Snapshot

end PageLog
