import Reckon.Proofs.Sessions
import Reckon.Proofs.Tandem

/-!
# Functions that do not look at numbers

A function is handed the numbers of slots: of the slot that an argument names, and of the elements
of an array. `Function.Blind` says that it makes no use of them, nor of chance. It may compare
slots and give them back, but under other numbers it gives the same answer. All builtin functions
but `id` and `random` are blind, since they look at nothing but numbers in the other sense.
-/

namespace Reckon

/-- Two answers that are the same failure, or results that are related. -/
inductive Agree {α β : Type} (R : α → β → Prop) : Except Failure α → Except Failure β → Prop
  | ok {a : α} {b : β} (hResult : R a b) : Agree R (.ok a) (.ok b)
  | error (e : Failure) : Agree R (.error e) (.error e)

/-- Results that are related more narrowly are related more widely. -/
theorem Agree.imp {α β : Type} {R R' : α → β → Prop} {x : Except Failure α} {y : Except Failure β}
    (h : Agree R x y) (hImp : ∀ a b, R a b → R' a b) : Agree R' x y := by
  cases h with
  | ok hResult => exact .ok (hImp _ _ hResult)
  | error e => exact .error e

/-- What an argument turns out to be, with related slots in arrays. -/
inductive Sight.Alike (R : SlotId → SlotId → Prop) : Sight → Sight → Prop
  | nil : Alike R .nil .nil
  | number (n : Number) : Alike R (.number n) (.number n)
  | function : Alike R .function .function
  | array {ids ids' : List SlotId} (hSlots : List.Forall₂ R ids ids') :
      Alike R (.array ids) (.array ids')

/-- Arguments that name related slots, or none, and turn out to be the same. -/
structure Argument.Alike (R : SlotId → SlotId → Prop) (a a' : Argument) : Prop where
  slot : (a.slot = 0 ∧ a'.slot = 0) ∨ R a.slot a'.slot
  sight : a.sight.Alike R a'.sight

/-- The same reply, or one of related slots. -/
inductive Reply.Alike (R : SlotId → SlotId → Prop) : Reply Function → Reply Function → Prop
  | nil : Alike R .nil .nil
  | number (n : Number) : Alike R (.number n) (.number n)
  | function (f : Function) : Alike R (.function f) (.function f)
  | slot {id id' : SlotId} (hSlot : R id id') : Alike R (.slot id) (.slot id')

/-- A function that gives the same answers whatever numbers the slots have, and whatever number is
drawn for it. Number 0, which stands for no slot, is not given out. -/
def Function.Blind (f : Function) : Prop :=
  ∀ R : SlotId → SlotId → Prop, Relator.BiUnique R → (∀ id id', R id id' → id ≠ 0 ∧ id' ≠ 0) →
    ∀ sample sample' args args', List.Forall₂ (Argument.Alike R) args args' →
      Agree (Reply.Alike R) (f.body sample args) (f.body sample' args')

/-! ## Builtin functions -/

variable {R : SlotId → SlotId → Prop}

/-- Arguments that are alike are the same number, or neither is one. -/
theorem Argument.Alike.number {a a' : Argument} (h : a.Alike R a') : a.number = a'.number := by
  obtain ⟨-, hSight⟩ := h
  unfold Argument.number
  generalize a.sight = x at hSight
  generalize a'.sight = y at hSight
  cases hSight <;> rfl

/-- Where all arguments are the same numbers, they are read in the same way. -/
theorem Argument.numbers_congr {args args' : List Argument}
    (h : List.Forall₂ (fun a a' : Argument => a.number = a'.number) args args') :
    Argument.numbers args = Argument.numbers args' := by
  unfold Argument.numbers
  induction h with
  | nil => rfl
  | cons hHead _ ih => rw [List.mapM_cons, List.mapM_cons, hHead, ih]

/-- A function that looks at nothing but the numbers it is given, and gives back numbers, is
blind. -/
theorem Function.blind_of_numbers {f : Function}
    (hSame : ∀ sample sample' args args',
      List.Forall₂ (fun a a' : Argument => a.number = a'.number) args args' →
        f.body sample args = f.body sample' args')
    (hReply : ∀ sample args reply, f.body sample args = .ok reply → ∃ n, reply = .number n) :
    f.Blind := by
  intro R _ _ sample sample' args args' hArgs
  -- the numbers are all that the function looks at, so it says the same of both
  rw [← hSame sample sample' args args' (hArgs.imp fun _ _ h => h.number)]
  cases hBody : f.body sample args with
  | error e => exact .error e
  | ok reply =>
    obtain ⟨n, rfl⟩ := hReply sample args reply hBody
    exact .ok (.number n)

/-- A function of one number is blind. -/
theorem Function.blind_ofNumber (name : String) (f : Number → Except Failure Number) :
    (Builtin.ofNumber name f).Blind := by
  refine blind_of_numbers (fun sample sample' args args' hArgs => ?_) fun _ _ _ =>
    Session.reply_ofNumber
  unfold Builtin.ofNumber
  -- it takes one argument, and any other number of them is refused on both sides
  cases hArgs with
  | nil => rfl
  | cons hHead hTail =>
    cases hTail with
    | nil => simp only [hHead]
    | cons _ _ => rfl

/-- A fold over numbers is blind. -/
theorem Function.blind_folding (name : String) (start : Float) (f : Float → Float → Float) :
    (Builtin.folding name start f).Blind := by
  refine blind_of_numbers (fun sample sample' args args' hArgs => ?_) fun _ _ _ =>
    Session.reply_folding
  unfold Builtin.folding
  have hEmpty : args.isEmpty = args'.isEmpty := by cases hArgs <;> rfl
  simp only [hEmpty, Argument.numbers_congr hArgs]

/-- **The builtin functions are blind**, but for the two that are not meant to be. -/
theorem Function.blind_builtin {f : Function} (hf : f ∈ Builtin.all) (hId : f.name ≠ "id")
    (hRandom : f.name ≠ "random") : f.Blind := by
  simp only [Builtin.all, List.mem_cons, List.not_mem_nil, or_false] at hf
  -- each of them is a function of one number or a fold, or one of the two
  rcases hf with rfl | rfl | rfl | rfl | rfl | rfl | rfl | rfl | rfl | rfl | rfl | rfl | rfl |
    rfl | rfl
  all_goals first
    | exact blind_ofNumber _ _
    | exact blind_folding _ _ _
    | exact absurd rfl hId
    | exact absurd rfl hRandom

/-! ## Calls -/

variable {r : Matching} {s t s' t' : Store} {objs objs' : Multiset Object}

/-- The slots that an object owns, in order. -/
def Object.ownedSlots : Object → List SlotId
  | .array ids => ids
  | _ => []

/-- The slots in order are those that the object is counted to own. -/
theorem Object.coe_ownedSlots (obj : Object) : (obj.ownedSlots : Multiset SlotId) = obj.owns := by
  cases obj <;> rfl

/-- What objects own together is the list of their slots. -/
theorem bind_owns_coe (objs : List Object) :
    (objs : Multiset Object).bind Object.owns = (objs.flatMap Object.ownedSlots : List SlotId) := by
  rw [← Multiset.coe_bind]
  exact Multiset.bind_congr fun obj _ => obj.coe_ownedSlots.symm

/-- The slots of an array among objects that are alike are paired with those of its counterpart. -/
theorem ownedSlots_paired {args args' : List Object}
    (hArgs : List.Forall₂ (Object.Alike r s t) args args') :
    List.Forall₂ (fun obj obj' => obj.Alike r s t obj' ∧
      ∀ q ∈ obj.ownedSlots.zip obj'.ownedSlots,
        q ∈ (args.flatMap Object.ownedSlots).zip (args'.flatMap Object.ownedSlots)) args args' := by
  induction hArgs with
  | nil => exact .nil
  | @cons obj obj' args args' hObj _ ih =>
    have hLength : obj.ownedSlots.length = obj'.ownedSlots.length := by
      cases hObj with
      | array hSlots => exact hSlots.length_eq
      | _ => rfl
    rw [List.flatMap_cons, List.flatMap_cons, List.zip_append hLength]
    refine .cons ⟨hObj, fun q hq => List.mem_append_left _ hq⟩ ?_
    exact ih.imp fun _ _ h => ⟨h.1, fun q hq => List.mem_append_right _ (h.2 q hq)⟩

/-- A slot that an argument names is matched. -/
theorem exists_slot_of_alike {args args' : List Object} {obj : Object}
    (hArgs : List.Forall₂ (Object.Alike r s t) args args') (hObj : obj ∈ args)
    (hNamed : obj.slot ≠ 0) : ∃ id', r.slots obj.slot id' := by
  induction hArgs with
  | nil => cases hObj
  | cons hHead _ ih =>
    rcases List.mem_cons.1 hObj with rfl | hTail
    · cases hHead with
      | writable hSlot => exact ⟨_, hSlot⟩
      | _ => exact absurd rfl hNamed
    · exact ih hTail

/-- Slots that stand for each other, in the store or in arrays among the arguments. -/
def Matching.withArguments (r : Matching) (args args' : List Object) (id id' : SlotId) : Prop :=
  r.slots id id' ∨
    (id, id') ∈ (args.flatMap Object.ownedSlots).zip (args'.flatMap Object.ownedSlots)

namespace Matching

/-- Arguments that are alike look alike to a function. -/
theorem Between.argument {args args' : List Object} {obj obj' : Object} (h : r.Between s t)
    (hObj : obj.Alike r s t obj')
    (hOwned : ∀ q ∈ obj.ownedSlots.zip obj'.ownedSlots,
      q ∈ (args.flatMap Object.ownedSlots).zip (args'.flatMap Object.ownedSlots)) :
    (s.argument obj).Alike (r.withArguments args args') (t.argument obj') := by
  constructor
  -- a handle names its slot, and anything else names none
  · cases hObj with
    | writable hSlot => exact .inr (.inl hSlot)
    | _ => exact .inl ⟨rfl, rfl⟩
  -- the slots in an array are matched if it is in a literal, and paired if it is in hand
  · have hPayload : Option.Rel (Payload.Alike (r.withArguments args args')) (s.payload? obj)
        (t.payload? obj') := by
      refine h.payload?_of hObj (fun _ _ hSlot => .inl hSlot) fun ids ids' hIds hIds' => ?_
      subst hIds hIds'
      cases hObj with
      | array hSlots =>
        exact List.forall₂_iff_zip.2 ⟨hSlots.length_eq, fun hIn => .inr (hOwned _ hIn)⟩
    unfold Store.argument
    dsimp only
    generalize s.payload? obj = x at hPayload ⊢
    generalize t.payload? obj' = y at hPayload ⊢
    cases hPayload with
    | none => exact .nil
    | some hAlike =>
      cases hAlike with
      | number n => exact .number n
      | function f => exact .function
      | array hSlots => exact .array hSlots

/-- A matched slot has a number, and nobody owns it from outside. -/
theorem Between.withArguments_unique {args args' : List Object} (h : r.Between s t)
    (hs : s.Keeps (args + objs)) (ht : t.Keeps (args' + objs')) :
    Relator.BiUnique (r.withArguments args args') ∧
      ∀ id id', r.withArguments args args' id id' → id ≠ 0 ∧ id' ≠ 0 := by
  have hBalanced := hs.balanced
  have hBalanced' := ht.balanced
  rw [Multiset.add_bind, Multiset.add_bind, bind_owns_coe] at hBalanced hBalanced'
  have hPositive {u : Store} {handles : Multiset LiteralId} {loose : Multiset SlotId} {id : SlotId}
      (hu : u.Balanced handles loose) (hUsed : (∃ o, u.Owns id o) ∨ id ∈ loose) : id ≠ 0 := by
    obtain ⟨slot, hSlot⟩ := Option.isSome_iff_exists.1 (hu.slot?_isSome_iff.2 hUsed)
    exact Nat.ne_of_gt (hu.pos_of_slot? hSlot)
  constructor
  -- a slot that is matched has an owner in the store, and one in hand has none
  · refine biUnique_or h.slotsUnique
      (biUnique_zip hBalanced.nodup_of_loose hBalanced'.nodup_of_loose) ?_ ?_
    · intro id id' k hSlot hIn
      obtain ⟨⟨o, hOwns⟩, -⟩ := h.owned id id' hSlot
      exact hBalanced.not_owns_of_loose
        (Multiset.mem_add.2 (.inl (Multiset.mem_coe.2 (List.of_mem_zip hIn).1))) hOwns
    · intro id k id' hSlot hIn
      obtain ⟨-, ⟨o, hOwns⟩⟩ := h.owned id id' hSlot
      exact hBalanced'.not_owns_of_loose
        (Multiset.mem_add.2 (.inl (Multiset.mem_coe.2 (List.of_mem_zip hIn).2))) hOwns
  -- a slot that is in use is not number 0, whether the store owns it or a hand does
  · rintro id id' (hSlot | hIn)
    · obtain ⟨hOwned, hOwned'⟩ := h.owned id id' hSlot
      exact ⟨hPositive hBalanced (.inl hOwned), hPositive hBalanced' (.inl hOwned')⟩
    · obtain ⟨hMem, hMem'⟩ := List.of_mem_zip hIn
      exact ⟨hPositive hBalanced (.inr (Multiset.mem_add.2 (.inl (Multiset.mem_coe.2 hMem)))),
        hPositive hBalanced' (.inr (Multiset.mem_add.2 (.inl (Multiset.mem_coe.2 hMem'))))⟩

/-- **A blind function cannot tell the stores apart**: arguments that are alike give the same
failure, or results that are alike. -/
theorem Between.call {f : Function} {args args' : List Object} (h : r.Between s t)
    (hs : s.Keeps (args + objs)) (ht : t.Keeps (args' + objs'))
    (hArgs : List.Forall₂ (Object.Alike r s t) args args') (hBlind : f.Blind)
    (hNames : f.NamesArguments) :
    Agree (fun obj obj' => ∀ s' t', obj.Alike r s' t' obj') (s.call f args).1
      (t.call f args').1 := by
  obtain ⟨sample, entropy, hCall⟩ := Store.exists_call_eq s f args
  obtain ⟨sample', entropy', hCall'⟩ := Store.exists_call_eq t f args'
  have hArguments : List.Forall₂ (Argument.Alike (r.withArguments args args'))
      (args.map s.argument) (args'.map t.argument) := by
    rw [List.forall₂_map_left_iff, List.forall₂_map_right_iff]
    exact (ownedSlots_paired hArgs).imp fun _ _ hPair => h.argument hPair.1 hPair.2
  obtain ⟨hUnique, hPositive⟩ := h.withArguments_unique hs ht
  have hSame := hBlind _ hUnique hPositive sample sample' _ _ hArguments
  have hCount : (args.map s.argument).length = (args'.map t.argument).length :=
    hArguments.length_eq
  rw [hCall, hCall']
  unfold Function.call
  rw [hCount]
  -- the count of the arguments is looked at first, and it is the same on both sides
  by_cases hAccepts : f.arity.accepts (args'.map t.argument).length = true
  · rw [if_pos hAccepts, if_pos hAccepts]
    generalize hBody : f.body sample (args.map s.argument) = answer at hSame
    generalize f.body sample' (args'.map t.argument) = answer' at hSame
    cases hSame with
    | error e => exact .error e
    | ok hReply =>
      refine .ok fun s' t' => ?_
      cases hReply with
      | nil => exact .nil
      | number n => exact .number n
      | function g => exact .function g
      | @slot id id' hSlot =>
        refine .writable (hSlot.resolve_right fun hIn => ?_)
        -- the slot is one that an argument names, so nobody owns it from outside
        obtain ⟨hId, a, ha, hNamed⟩ := hNames _ _ id hBody
        obtain ⟨obj, hObj, rfl⟩ := List.mem_map.1 ha
        have hSame : obj.slot = id := hNamed
        subst hSame
        obtain ⟨k, hMatched⟩ := exists_slot_of_alike hArgs hObj hId
        obtain ⟨⟨o, hOwns⟩, -⟩ := h.owned _ _ hMatched
        have hBalanced := hs.balanced
        rw [Multiset.add_bind, Multiset.add_bind, bind_owns_coe] at hBalanced
        refine hBalanced.not_owns_of_loose (Multiset.mem_add.2 (.inl ?_)) hOwns
        exact Multiset.mem_coe.2 (List.of_mem_zip hIn).1
  · rw [if_neg hAccepts, if_neg hAccepts]
    exact .error _

end Matching

end Reckon
