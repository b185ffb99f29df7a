import Reckon.Proofs.Custody

/-!
# Reclaiming keeps the books

A literal that the sweep takes out is held by nobody, and the slots that it owned are taken back at
once. So the books balance after every round, and when the queue has run empty every literal that is
left is held by somebody.
-/

namespace Reckon

namespace Store

variable {s : Store} {handles : Multiset LiteralId} {loose : Multiset SlotId}

/-- Nobody holds on to a literal whose count is zero. -/
theorem Balanced.not_mem_of_refs {l : LiteralId} {lit : Literal} (hs : s.Balanced handles loose)
    (hl : s.literal? l = some lit) (hZero : lit.refs = 0) : l ∉ s.pointed + handles := by
  rw [← Multiset.count_eq_zero, ← hs.counted l lit hl]
  exact hZero

/-- Taking a literal out that nobody holds on to: the slots that it owned are owned from outside. -/
theorem Balanced.vacate {l : LiteralId} {payload : Payload} {queue : List LiteralId}
    (hs : s.Balanced handles loose) (hQueue : s.queue = l :: queue)
    (hl : s.literal? l = some ⟨payload, 0⟩) :
    (Store.vacate { s with queue } l).Balanced handles (payload.slots + loose) := by
  have hEntry := getElem?_of_literal? hl
  have hLiteral := literal?_of_set (t := Store.vacate { s with queue } l) hEntry rfl
  have hOwned := owned_of_set (t := Store.vacate { s with queue } l) hEntry rfl rfl
  have hPointed : pointed (Store.vacate { s with queue } l) = s.pointed := pointed_of_eq rfl
  have hUnheld := hs.not_mem_of_refs hl rfl
  refine ⟨?_, ?_, ?_, ?_, ⟨?_, ?_⟩, hs.free, hs.zero, hs.names, hs.solvent⟩
  · -- the other literals are counted as before
    intro k lit hk
    rw [hLiteral] at hk
    rw [hPointed]
    split at hk
    · cases hk
    · exact hs.counted k lit hk
  · -- nobody held on to the literal, so nobody misses it
    intro k hk
    rw [hPointed] at hk
    rw [hLiteral, if_neg]
    · exact hs.backed k hk
    · rintro rfl
      exact hUnheld hk
  · -- the slots that it owned are in other hands now
    intro id
    have hMove : owned (Store.vacate { s with queue } l) + payload.slots = s.owned := by
      simpa [Literal.owned] using hOwned
    rw [← add_assoc, hMove]
    exact hs.single id
  · -- the queue has lost nothing but the literal
    intro k lit hk hZero
    rw [hLiteral] at hk
    split at hk
    · cases hk
    · rename_i hNe
      have hQueued := hs.queued k lit hk hZero
      rw [hQueue] at hQueued
      exact (List.mem_cons.1 hQueued).resolve_left hNe
  · -- the number was in use
    refine hs.vacant.1.cons ?_
    intro hVacant
    rw [(hs.vacant.2 l hVacant).2] at hl
    cases hl
  · -- a number to be used again has no literal, this one included
    intro k hk
    obtain ⟨hSize, -⟩ := Array.getElem?_eq_some_iff.1 hEntry
    have hSame : (Store.vacate { s with queue } l).literals.size = s.literals.size :=
      Array.size_setIfInBounds ..
    rw [hSame, hLiteral]
    rcases List.mem_cons.1 hk with rfl | hk
    · exact ⟨hSize, if_pos rfl⟩
    · obtain ⟨hOld, hNone⟩ := hs.vacant.2 k hk
      refine ⟨hOld, ?_⟩
      split
      · rfl
      · exact hNone

/-- Passing over a queued literal that has been reclaimed or is held again. -/
theorem Balanced.passOver {l : LiteralId} {queue : List LiteralId} (hs : s.Balanced handles loose)
    (hQueue : s.queue = l :: queue) (hl : ∀ payload, s.literal? l ≠ some ⟨payload, 0⟩) :
    Balanced { s with queue } handles loose := by
  refine ⟨hs.counted, hs.backed, hs.single, ?_, hs.vacant, hs.free, hs.zero, hs.names, hs.solvent⟩
  intro k lit hk hZero
  have hQueued := hs.queued k lit hk hZero
  rw [hQueue] at hQueued
  -- the literal that is passed over is the one that is not to be there without holders
  rcases List.mem_cons.1 hQueued with rfl | hQueued
  · obtain ⟨payload, refs⟩ := lit
    cases hZero
    exact absurd hk (hl payload)
  · exact hQueued

/-- **The sweep keeps the books and empties the queue.** -/
theorem Balanced.sweepOnto (hs : s.Balanced handles loose) (reclaimed : Nat) :
    (s.sweepOnto reclaimed).2.Balanced handles loose ∧ (s.sweepOnto reclaimed).2.queue = [] := by
  induction s, reclaimed using Store.sweepOnto.induct with
  | case1 s reclaimed hQueue =>
    rw [sweepOnto_of_nil hQueue]
    exact ⟨hs, hQueue⟩
  | case2 s reclaimed l queue hQueue _ payload hl ih =>
    rw [sweepOnto_of_unheld hQueue hl]
    -- a round that reclaims: the slots in other hands are taken back at once
    exact ih (hs.vacate hQueue hl).freeSlots
  | case3 s reclaimed l queue hQueue _ hl ih =>
    rw [sweepOnto_of_held hQueue hl]
    exact ih (hs.passOver hQueue hl)

/-- After the sweep nothing is left that nobody holds on to. -/
theorem Balanced.held_of_sweepOnto (hs : s.Balanced handles loose) (reclaimed : Nat) :
    ∀ l lit, (s.sweepOnto reclaimed).2.literal? l = some lit → lit.refs ≠ 0 := by
  obtain ⟨hBalanced, hQueue⟩ := hs.sweepOnto reclaimed
  intro l lit hl hZero
  have hQueued := hBalanced.queued l lit hl hZero
  rw [hQueue] at hQueued
  cases hQueued

/-- After the sweep every literal is held by somebody. -/
theorem Keeps.sweep {objs : Multiset Object} (hs : s.Keeps objs) :
    s.sweep.2.Keeps objs ∧ s.sweep.2.queue = [] ∧
      ∀ l lit, s.sweep.2.literal? l = some lit → lit.refs ≠ 0 := by
  obtain ⟨hBalanced, hQueue⟩ := hs.balanced.sweepOnto 0
  exact ⟨⟨hBalanced, hs.named⟩, hQueue, hs.balanced.held_of_sweepOnto 0⟩

/-- Giving up every name leaves the books of an empty store. -/
theorem Keeps.teardown (hs : s.Keeps 0) : s.teardown.2.Keeps 0 := by
  have hNameless : Balanced { s with symbols := {} } 0
      ((s.symbols.entries.map (·.2) : List SlotId) + 0) := by
    -- the slots of the names are in other hands now, and the books balance with these
    have hBalanced := hs.balanced
    rw [Multiset.zero_bind, Multiset.zero_bind] at hBalanced
    refine ⟨hBalanced.counted, hBalanced.backed, ?_, hBalanced.queued, hBalanced.vacant,
      hBalanced.free, hBalanced.zero, by simp, hBalanced.solvent⟩
    intro id
    have hOwned : owned { s with symbols := {} } +
        ((s.symbols.entries.map (·.2) : List SlotId) : Multiset SlotId) = s.owned := by
      simp only [owned, List.map_nil, Multiset.coe_nil, zero_add]
      exact add_comm _ _
    rw [add_zero, hOwned]
    have hSingle := hBalanced.single id
    rw [add_zero] at hSingle
    exact hSingle
  have hSwept := (hNameless.freeSlots.sweepOnto 0).1.solvent
  have hEmpty := keeps_empty s.entropy
  refine ⟨⟨hEmpty.balanced.counted, hEmpty.balanced.backed, hEmpty.balanced.single,
    hEmpty.balanced.queued, hEmpty.balanced.vacant, hEmpty.balanced.free, hEmpty.balanced.zero,
    hEmpty.balanced.names, hSwept⟩, hEmpty.named⟩

end Store

end Reckon
