import ZManager.Wim.VerifyAgreement

/-! # The retained streams of a WIM

Streams are retained by hash while their lengths fit a budget, and all of them are dropped when
the next one does not fit. A stream is retained only where none was retained under its hash, so
the counter of retained bytes is the sum of the lengths of what is there.
-/

namespace ZManager

namespace Wim

section

variable {codecs : ChunkCodecs} {set : WimSet} {cache : ResourceCache}
  {kept : List (List UInt8 × List UInt8)}

/-! ## Accounting -/

/-- The retained streams, each hash once, and the counter of their bytes. -/
structure ResourceCache.Accounts (cache : ResourceCache)
    (kept : List (List UInt8 × List UInt8)) : Prop where
  distinct : (kept.map Prod.fst).Nodup
  retained : ∀ hash data, cache.retained hash = some data ↔ (hash, data) ∈ kept
  bytes : cache.bytes = (kept.map fun stream => stream.2.length).sum

theorem ResourceCache.accounts_empty : ResourceCache.Accounts {} [] :=
  ⟨List.nodup_nil, fun _ _ => iff_of_false nofun nofun, rfl⟩

/-- A stream under a new hash is one more. -/
theorem ResourceCache.Accounts.insert (accounts : cache.Accounts kept) {hash : List UInt8}
    (fresh : cache.retained hash = none) (data : List UInt8) :
    ResourceCache.Accounts
      { retained := Function.update cache.retained hash (some data)
        bytes := cache.bytes + data.length }
      ((hash, data) :: kept) := by
  have absent : ∀ other, (hash, other) ∉ kept := by
    intro other member
    rw [(accounts.retained hash other).mpr member] at fresh
    cases fresh
  refine ⟨List.nodup_cons.mpr ⟨?_, accounts.distinct⟩, ?_, ?_⟩
  · intro member
    obtain ⟨⟨_, other⟩, found, rfl⟩ := List.mem_map.mp member
    exact absent other found
  · intro other value
    show Function.update cache.retained hash (some data) other = some value ↔ _
    by_cases same : other = hash
    · subst same
      rw [Function.update_self, List.mem_cons, Option.some.injEq, Prod.mk.injEq]
      apply Iff.intro
      · rintro rfl
        exact .inl ⟨rfl, rfl⟩
      · rintro (⟨-, rfl⟩ | member)
        · rfl
        · exact absurd member (absent value)
    · rw [Function.update_of_ne same, accounts.retained other value, List.mem_cons,
        Prod.mk.injEq]
      exact (or_iff_right fun both => same both.1).symm
  · rw [List.map_cons, List.sum_cons, ← accounts.bytes, Nat.add_comm]

/-- The counter is the sum of the retained lengths and within the budget. -/
def ResourceCache.Balanced (cache : ResourceCache) : Prop :=
  (∃ kept, cache.Accounts kept) ∧ cache.bytes ≤ resourceCacheBudgetBytes

theorem ResourceCache.balanced_empty : ResourceCache.Balanced {} :=
  ⟨⟨[], accounts_empty⟩, Nat.zero_le _⟩

theorem ResourceCache.Balanced.retainResource (balanced : cache.Balanced) {hash : List UInt8}
    (fresh : cache.retained hash = none) (data : List UInt8) :
    (cache.retainResource hash data).Balanced := by
  obtain ⟨⟨kept, accounts⟩, within⟩ := balanced
  unfold ResourceCache.retainResource
  by_cases skipped : data = [] ∨ resourceCacheBudgetBytes < data.length
  · rw [if_pos skipped]
    exact ⟨⟨kept, accounts⟩, within⟩
  · have fits : data.length ≤ resourceCacheBudgetBytes := Nat.not_lt.mp (not_or.mp skipped).2
    rw [if_neg skipped]
    by_cases full : resourceCacheBudgetBytes < cache.bytes + data.length
    · -- What was retained is dropped, so the new stream is alone.
      have alone := @ResourceCache.Accounts.insert _ _ ResourceCache.accounts_empty hash rfl data
      simp only [if_pos full]
      exact ⟨⟨_, alone⟩, by simpa using fits⟩
    · have more := accounts.insert fresh data
      simp only [if_neg full, fresh]
      exact ⟨⟨_, more⟩, Nat.not_lt.mp full⟩

/-! ## Sequences of calls -/

/-- The retained streams after a call; a call that fails leaves them as they were. -/
def afterRead (codecs : ChunkCodecs) (set : WimSet) (cache : ResourceCache) (entry : WimEntry) :
    ResourceCache :=
  match readEntryData codecs set cache entry with
  | .ok (_, after) => after
  | .error _ => cache

theorem ResourceCache.Sound.afterRead (sound : cache.Sound codecs set) (entry : WimEntry) :
    (afterRead codecs set cache entry).Sound codecs set := by
  unfold Wim.afterRead
  obtain ⟨stopped, fails, -⟩ | ⟨data, after, read, kept, -⟩ := readEntryData_eq sound entry
  · rw [fails]
    exact sound
  · rw [read]
    exact kept

theorem ResourceCache.Balanced.afterRead (balanced : cache.Balanced) (entry : WimEntry) :
    (afterRead codecs set cache entry).Balanced := by
  unfold Wim.afterRead readEntryData
  by_cases zero : entry.sha1 = noHash
  · rw [if_pos zero]
    exact balanced
  · rw [if_neg zero]
    cases fresh : cache.retained entry.sha1 with
    | some data => exact balanced
    | none =>
      cases found : set.lut entry.sha1 with
      | none => exact balanced
      | some lookup =>
        cases read : set.readStream codecs lookup with
        | error stopped =>
          simp only [read]
          exact balanced
        | ok data =>
          simp only [read]
          exact balanced.retainResource fresh data

/-- The retained streams after some calls, from an archive just opened. -/
def afterReads (codecs : ChunkCodecs) (set : WimSet) (calls : List WimEntry) : ResourceCache :=
  calls.foldl (afterRead codecs set) {}

theorem afterReads_concat (calls : List WimEntry) (entry : WimEntry) :
    afterReads codecs set (calls ++ [entry]) =
      afterRead codecs set (afterReads codecs set calls) entry :=
  List.foldl_concat _ _ entry calls

theorem sound_afterReads (calls : List WimEntry) :
    (afterReads codecs set calls).Sound codecs set := by
  induction calls using List.reverseRecOn with
  | nil => exact ResourceCache.sound_empty codecs set
  | append_singleton calls entry ih =>
    rw [afterReads_concat]
    exact ih.afterRead entry

theorem balanced_afterReads (calls : List WimEntry) :
    (afterReads codecs set calls).Balanced := by
  induction calls using List.reverseRecOn with
  | nil => exact ResourceCache.balanced_empty
  | append_singleton calls entry ih =>
    rw [afterReads_concat]
    exact ih.afterRead entry

/-- **The retained streams are transparent and bounded.** After any calls the next one returns
what it returns when nothing is retained, and the counter is the sum of the retained lengths and
within the budget. -/
theorem retained_streams_transparent_and_bounded (codecs : ChunkCodecs) (set : WimSet)
    (calls : List WimEntry) :
    (∀ entry, (readEntryData codecs set (afterReads codecs set calls) entry).map Prod.fst =
      (readEntryData codecs set {} entry).map Prod.fst) ∧
    (∃ kept, (afterReads codecs set calls).Accounts kept) ∧
    (afterReads codecs set calls).bytes ≤ resourceCacheBudgetBytes := by
  refine ⟨fun entry => ?_, balanced_afterReads calls⟩
  have sound : (afterReads codecs set calls).Sound codecs set := sound_afterReads calls
  obtain ⟨stopped, fails, fresh⟩ | ⟨data, after, read, -, fresh⟩ := readEntryData_eq sound entry
  · rw [fails]
    exact fresh.symm
  · rw [read]
    exact fresh.symm

end

end Wim

end ZManager
