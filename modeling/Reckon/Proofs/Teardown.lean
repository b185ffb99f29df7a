import Reckon.Proofs.Accounting
import Reckon.Proofs.Noting

/-!
# What a teardown leaves

A teardown takes the slots of all names back, sweeps, and counts what the sweep has reclaimed and
what it has left: arrays that contain themselves. Then it starts anew. The two parts of the count
depend on what points at what. Their sum does not, since every round of the sweep that counts takes
out one literal, and nothing else takes any out. So the count is right for every store, also for one
whose books do not balance, and whatever slots were taken back first.

Names are kept in the order in which they were introduced. A table that forgets this order may drain
its names in any other. Here the order is a parameter (`Session.teardownIn`), and nothing that is
said about a teardown depends on it.

What is left is a new session with the same limits, but for the note that the store has taken if a
literal was ever given up that nobody held on to. Nothing reads that note, so whatever is done next
gives the same answers as with a new session.

## Results

* `Store.loses_sweepOnto`   — what a sweep takes out, each literal once, from any store.
* `Session.tornDown`        — what a teardown counts and what it leaves, from any session.
-/

namespace Reckon

namespace Store

/-! ## What a sweep takes out -/

/-- The literals that are there, by number. -/
def present (s : Store) : List LiteralId :=
  (List.range s.literals.size).filter fun l => (s.literal? l).isSome

/-- The second store has lost these literals of the first one, each listed once, and no other. -/
structure Loses (s : Store) (lost : List LiteralId) (t : Store) : Prop where
  nodup : lost.Nodup
  mem_iff : ∀ l, l ∈ lost ↔ (s.literal? l).isSome ∧ t.literal? l = none
  left : ∀ l, (t.literal? l).isSome → (s.literal? l).isSome

variable {s t u : Store} {lost : List LiteralId}

/-- The numbers that are listed are those at which there is a literal. -/
theorem mem_present {l : LiteralId} : l ∈ s.present ↔ (s.literal? l).isSome := by
  unfold present
  rw [List.mem_filter, List.mem_range]
  refine and_iff_right_of_imp fun hLive => ?_
  obtain ⟨lit, hl⟩ := Option.isSome_iff_exists.1 hLive
  exact (literal?_eq_some_iff.1 hl).1

theorem nodup_present (s : Store) : s.present.Nodup := List.nodup_range.filter _

/-- There are as many numbers listed as there are literals. -/
theorem length_present (s : Store) : s.present.length = s.liveLiterals := by
  unfold present liveLiterals
  rw [countP_isSome_eq, List.countP_eq_length_filter]
  rfl

/-- **What was there is lost or left**, and never both. -/
theorem Loses.perm (h : s.Loses lost t) : (lost ++ t.present).Perm s.present := by
  refine (List.perm_ext_iff_of_nodup ?_ s.nodup_present).2 fun l => ?_
  · refine List.nodup_append.2 ⟨h.nodup, t.nodup_present, ?_⟩
    rintro l hLost _ hLeft rfl
    have hGone := ((h.mem_iff l).1 hLost).2
    rw [mem_present, hGone] at hLeft
    cases hLeft
  · rw [List.mem_append, h.mem_iff, mem_present, mem_present]
    constructor
    · rintro (⟨hLive, -⟩ | hLeft)
      · exact hLive
      · exact h.left l hLeft
    · intro hLive
      by_cases hGone : t.literal? l = none
      · exact .inl ⟨hLive, hGone⟩
      · exact .inr (Option.isSome_iff_ne_none.2 hGone)

/-- The two numbers make up how many there were. -/
theorem Loses.length_add (h : s.Loses lost t) :
    lost.length + t.liveLiterals = s.liveLiterals := by
  rw [← length_present, ← length_present, ← h.perm.length_eq, List.length_append]

/-- A store has lost nothing of itself. -/
theorem loses_nil (s : Store) : s.Loses [] s := by
  refine ⟨List.nodup_nil, fun l => ?_, fun l hLive => hLive⟩
  constructor
  · intro hMem
    cases hMem
  · rintro ⟨hLive, hGone⟩
    rw [hGone] at hLive
    cases hLive

/-- Only which literals the first store has matters. -/
theorem Loses.of_isSome (h : t.Loses lost u)
    (hSame : ∀ l, (t.literal? l).isSome = (s.literal? l).isSome) : s.Loses lost u := by
  refine ⟨h.nodup, fun l => ?_, fun l hLeft => ?_⟩
  · rw [← hSame]
    exact h.mem_iff l
  · rw [← hSame]
    exact h.left l hLeft

/-- What one store has lost from another is lost as well when the literals of the first are those of
a third one, and one more. -/
theorem Loses.cons {l : LiteralId} (h : t.Loses lost u) (hLive : (s.literal? l).isSome)
    (hOthers : ∀ k, (t.literal? k).isSome ↔ k ≠ l ∧ (s.literal? k).isSome) :
    s.Loses (l :: lost) u := by
  have hGone : u.literal? l = none := by
    by_contra hLeft
    have hStill := h.left l (Option.isSome_iff_ne_none.2 hLeft)
    exact ((hOthers l).1 hStill).1 rfl
  refine ⟨List.nodup_cons.2 ⟨fun hAgain => ?_, h.nodup⟩, fun k => ?_, fun k hk => ?_⟩
  · exact ((hOthers l).1 ((h.mem_iff l).1 hAgain).1).1 rfl
  · rw [List.mem_cons, h.mem_iff, hOthers]
    constructor
    · rintro (rfl | ⟨⟨-, hk⟩, hNone⟩)
      · exact ⟨hLive, hGone⟩
      · exact ⟨hk, hNone⟩
    · rintro ⟨hk, hNone⟩
      by_cases hEq : k = l
      · exact .inl hEq
      · exact .inr ⟨⟨hEq, hk⟩, hNone⟩
  · exact ((hOthers k).1 (h.left k hk)).2

/-- Literals that hold what they held are there if they were. -/
theorem SameLiterals.isSome (h : s.SameLiterals t) (l : LiteralId) :
    (t.literal? l).isSome = (s.literal? l).isSome := by
  have hPayload := congrArg Option.isSome (h.payload l)
  rwa [Option.isSome_map, Option.isSome_map] at hPayload

/-- **A sweep takes out as many literals as it counts, each of them once.** By induction on its
rounds: a round that counts takes one literal out, and the slots of an array that are taken back
with it leave all others where they are. -/
theorem loses_sweepOnto (s : Store) (n : Nat) :
    ∃ lost, s.Loses lost (s.sweepOnto n).2 ∧ (s.sweepOnto n).1 = n + lost.length := by
  induction s, n using Store.sweepOnto.induct with
  | case1 s n hQueue =>
    rw [sweepOnto_of_nil hQueue]
    exact ⟨[], loses_nil s, rfl⟩
  | case2 s n l queue hQueue _ payload hl ih =>
    rw [sweepOnto_of_unheld hQueue hl]
    obtain ⟨lost, hLoses, hCount⟩ := ih
    have hSame := (sameLiterals_freeSlots (vacate { s with queue } l) payload.slots).isSome
    have hVacated := literal?_of_set (t := vacate { s with queue } l) (getElem?_of_literal? hl) rfl
    have hLive : (s.literal? l).isSome := Option.isSome_iff_exists.2 ⟨_, hl⟩
    refine ⟨l :: lost, hLoses.cons hLive fun k => ?_, ?_⟩
    -- the round takes out this literal and no other
    · rw [hSame, hVacated]
      show (if k = l then none else s.literal? k).isSome ↔ _
      by_cases hk : k = l <;> simp [hk]
    · rw [hCount, List.length_cons]
      omega
  | case3 s n l queue hQueue _ hl ih =>
    rw [sweepOnto_of_held hQueue hl]
    obtain ⟨lost, hLoses, hCount⟩ := ih
    exact ⟨lost, hLoses.of_isSome fun _ => rfl, hCount⟩

/-! ## Giving things up leaves the draws to come alone -/

/-- A hold that is given up draws nothing. -/
theorem entropy_forgo (s : Store) (l : LiteralId) : (s.forgo l).entropy = s.entropy := by
  unfold Store.forgo
  split <;> rfl

/-- Taking slots back draws nothing. -/
theorem entropy_freeSlots (s : Store) (ids : List SlotId) :
    (s.freeSlots ids).entropy = s.entropy := by
  unfold Store.freeSlots
  induction ids generalizing s with
  | nil => rfl
  | cons id ids ih =>
    refine (ih _).trans ?_
    unfold Store.freeSlot
    split
    · rfl
    · rename_i slot _
      rcases slot with ⟨_ | l⟩
      · rfl
      · exact entropy_forgo _ l

/-- What is given up is counted on less, but every literal stays where it is until it is swept. -/
theorem sameLiterals_release (s : Store) (obj : Object) :
    s.SameLiterals (s.release obj) ∧ (s.release obj).entropy = s.entropy := by
  cases obj with
  | array slots => exact ⟨sameLiterals_freeSlots s slots, entropy_freeSlots s slots⟩
  | readOnly l => exact ⟨sameLiterals_forgo s l, entropy_forgo s l⟩
  | _ => exact ⟨⟨rfl, fun _ => rfl, rfl, rfl, rfl⟩, rfl⟩

/-! ## The teardown of a store -/

/-- The store without its names, when their slots have been taken back in the given order. -/
def drained (s : Store) (order : List SlotId) : Store :=
  freeSlots { s with symbols := {} } order

/-- The teardown of a store whose names give up their slots in the given order. -/
def teardownIn (s : Store) (order : List SlotId) : Nat × Store :=
  let r := (s.drained order).sweep
  (r.1 + r.2.liveLiterals, { empty s.entropy with overdrawn := r.2.overdrawn })

end Store

namespace Session

/-! ## The teardown of a session -/

/-- The teardown of a session whose names give up their slots in the given order. -/
def teardownIn (c : Session) (order : List SlotId) : Nat × Session :=
  let r := c.storeWithoutResult.teardownIn order
  (r.1, { bare c.options with store := r.2 })

/-- What the store is when its sweep begins, and what the sweep leaves. -/
def sweptIn (c : Session) (order : List SlotId) : Nat × Store :=
  (c.storeWithoutResult.drained order).sweep

/-- What a teardown has done, whatever the order in which the names were drained. -/
structure TornDown (c : Session) : Prop where
  /-- A session drains the names in the order in which they were introduced. -/
  own : c.teardown = c.teardownIn (c.store.symbols.entries.map (·.2))
  /-- The count is the number of literals that were there before. -/
  counted : ∀ order, (c.teardownIn order).1 = c.store.liveLiterals
  /-- Each literal that was there was swept or was stranded, and never both. The count is made of
  the two numbers. -/
  once : ∀ order, ∃ swept stranded : List LiteralId,
    (swept ++ stranded).Nodup ∧
      (∀ l, l ∈ swept ++ stranded ↔ (c.store.literal? l).isSome) ∧
      (∀ l, l ∈ stranded ↔ ((c.sweptIn order).2.literal? l).isSome) ∧
      swept.length = (c.sweptIn order).1 ∧
      (c.teardownIn order).1 = swept.length + stranded.length
  /-- No literal, no slot and no name is left. -/
  cleared : ∀ order, (c.teardownIn order).2.store.liveLiterals = 0 ∧
    (c.teardownIn order).2.store.liveSlots = 0 ∧
    (c.teardownIn order).2.store.symbols.isEmpty
  /-- Whatever is done next gives the answers that a new session gives with the same limits. -/
  answers : ∀ order ops,
    (c.teardownIn order).2.answers ops = (bare c.options c.store.entropy).answers ops
  /-- It also leads to the same session, but for a note that nothing reads. -/
  after : ∀ order, ∃ b, ∀ ops,
    (c.teardownIn order).2.after ops = ((bare c.options c.store.entropy).after ops).noting b

variable (c : Session)

/-- Giving up the result leaves the literals, the names and the draws to come as they are. -/
theorem sameLiterals_storeWithoutResult :
    c.store.SameLiterals c.storeWithoutResult ∧ c.storeWithoutResult.entropy = c.store.entropy := by
  unfold Session.storeWithoutResult
  cases c.result with
  | none => exact ⟨⟨rfl, fun _ => rfl, rfl, rfl, rfl⟩, rfl⟩
  | some previous => exact Store.sameLiterals_release c.store previous

/-- **Every literal is swept or stranded**, whatever slots are taken back first. -/
theorem exists_loses_sweptIn (order : List SlotId) :
    ∃ swept, c.store.Loses swept (c.sweptIn order).2 ∧ (c.sweptIn order).1 = swept.length := by
  obtain ⟨swept, hLoses, hCount⟩ :=
    Store.loses_sweepOnto (c.storeWithoutResult.drained order) 0
  refine ⟨swept, hLoses.of_isSome fun l => ?_, hCount.trans (Nat.zero_add _)⟩
  -- neither the names nor the result take a literal with them
  calc ((c.storeWithoutResult.drained order).literal? l).isSome
      = (c.storeWithoutResult.literal? l).isSome :=
        (Store.sameLiterals_freeSlots { c.storeWithoutResult with symbols := {} } order).isSome l
    _ = (c.store.literal? l).isSome := c.sameLiterals_storeWithoutResult.1.isSome l

/-- The count is made of what was swept and what was left. -/
theorem teardownIn_count (order : List SlotId) :
    (c.teardownIn order).1 = (c.sweptIn order).1 + (c.sweptIn order).2.liveLiterals := rfl

/-- From any session, a teardown leads to a new one with the same limits, but for the note. -/
theorem exists_noting_of_teardownIn (order : List SlotId) :
    ∃ b, (c.teardownIn order).2 = (bare c.options c.store.entropy).noting b := by
  refine ⟨(c.sweptIn order).2.overdrawn, ?_⟩
  rw [← c.sameLiterals_storeWithoutResult.2]
  -- of what the sweep leaves nothing but the note is looked at
  unfold Session.teardownIn Store.teardownIn sweptIn
  generalize (c.storeWithoutResult.drained order).sweep = swept
  simp only [bare, Session.noting, Store.noting, Store.empty, Bool.false_or]

/-- **A teardown reclaims every literal once and leaves a new session**, at any point between
reading, compiling and running, and whatever is retained, queued, or inside itself. -/
theorem tornDown : c.TornDown := by
  refine ⟨?_, fun order => ?_, fun order => ?_, fun order => ⟨rfl, rfl, rfl⟩, fun order ops => ?_,
    fun order => ?_⟩
  -- the table of names is the same without the result
  · unfold Session.teardown Session.teardownIn
    rw [← c.sameLiterals_storeWithoutResult.1.symbols]
    rfl
  · obtain ⟨swept, hLoses, hCount⟩ := c.exists_loses_sweptIn order
    rw [teardownIn_count, hCount]
    exact hLoses.length_add
  · obtain ⟨swept, hLoses, hCount⟩ := c.exists_loses_sweptIn order
    refine ⟨swept, (c.sweptIn order).2.present, ?_, fun l => ?_, fun l => Store.mem_present,
      hCount.symm, ?_⟩
    · exact hLoses.perm.nodup_iff.2 c.store.nodup_present
    · rw [hLoses.perm.mem_iff]
      exact Store.mem_present
    · rw [teardownIn_count, hCount, Store.length_present]
  -- what is left differs from a new session by a note, which no answer depends on
  · obtain ⟨b, hNew⟩ := c.exists_noting_of_teardownIn order
    rw [hNew, answers_noting]
  · obtain ⟨b, hNew⟩ := c.exists_noting_of_teardownIn order
    exact ⟨b, fun ops => by rw [hNew, after_noting]⟩

end Session

end Reckon
