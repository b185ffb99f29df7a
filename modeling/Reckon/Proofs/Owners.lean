import Reckon.Proofs.Ledger

/-!
# Owners of slots

The books count the owners of a slot. Here the owners get names: a slot belongs to a symbol, or to a
position of an array in a literal. When the books balance and no slot is owned from outside, every
slot in use has exactly one owner.
-/

namespace Reckon

/-- What can own a slot: a name, or a position of the array in a literal. -/
inductive Owner where
  | symbol (name : String)
  | element (l : LiteralId) (position : Nat)
  deriving DecidableEq, Repr

namespace Store

/-- Whether the owner has the slot. -/
def Owns (s : Store) (id : SlotId) : Owner → Prop
  | .symbol name => s.lookup name = some id
  | .element l position =>
    ∃ lit, s.literal? l = some lit ∧ lit.payload.slots[position]? = some id

/-- How many slots point at a literal. -/
def slotsOn (s : Store) (l : LiteralId) : Nat :=
  s.slots.countP fun entry => entry.bind (·.target) == some l

/-- The elements of an entry among the literals, with their owners. -/
def claimsOf (l : LiteralId) (entry : Option Literal) : List (Owner × SlotId) :=
  ((entry.map (·.payload.slots)).getD []).zipIdx.map fun (id, position) =>
    (.element l position, id)

/-- Every owner with what it owns. -/
def claims (s : Store) : List (Owner × SlotId) :=
  s.symbols.entries.map (fun (name, id) => (.symbol name, id)) ++
    s.literals.toList.zipIdx.flatMap fun (entry, l) => claimsOf l entry

variable {s : Store} {handles : Multiset LiteralId} {loose : Multiset SlotId}

/-- What an entry owns is what its claims are on. -/
theorem slots_claimsOf (l : LiteralId) (entry : Option Literal) :
    ((claimsOf l entry).map (·.2) : Multiset SlotId) = Literal.owned entry := by
  unfold claimsOf Literal.owned
  rw [Multiset.coe_eq_coe, List.map_map]
  exact List.Perm.of_eq (List.zipIdx_map_fst ..)

/-- The owners have what the books say is owned. -/
theorem slots_claims (s : Store) : (s.claims.map (·.2) : Multiset SlotId) = s.owned := by
  have hLiterals (entries : List (Option Literal)) (start : Nat) :
      ((entries.zipIdx start).flatMap (fun (entry, l) => claimsOf l entry)).map (·.2) =
        (entries : Multiset (Option Literal)).bind Literal.owned := by
    induction entries generalizing start with
    | nil => rfl
    | cons entry entries ih =>
      rw [List.zipIdx_cons, List.flatMap_cons, List.map_append, ← Multiset.coe_add, ih,
        slots_claimsOf, ← Multiset.cons_coe, Multiset.cons_bind]
  unfold claims owned
  rw [List.map_append, ← Multiset.coe_add, List.map_map]
  exact congrArg _ (hLiterals _ 0)

/-- The claims of an entry are on the elements of its array, each by its position. -/
theorem mem_claimsOf_iff {l : LiteralId} {entry : Option Literal} {o : Owner} {id : SlotId} :
    (o, id) ∈ claimsOf l entry ↔
      ∃ lit position, entry = some lit ∧ o = .element l position ∧
        lit.payload.slots[position]? = some id := by
  unfold claimsOf
  rw [List.mem_map]
  constructor
  · rintro ⟨⟨id', position⟩, hMem, hEq⟩
    rw [List.mk_mem_zipIdx_iff_getElem?] at hMem
    cases hEq
    cases entry with
    | none => simp at hMem
    | some lit => exact ⟨lit, position, rfl, rfl, hMem⟩
  · rintro ⟨lit, position, rfl, rfl, hGet⟩
    exact ⟨(id, position), List.mk_mem_zipIdx_iff_getElem?.2 hGet, rfl⟩

/-- What stands in a table in which no name stands twice is found. -/
theorem Symbols.find?_of_mem {t : Symbols} {name : String} {id : SlotId}
    (hNames : (t.entries.map (·.1)).Nodup) (h : (name, id) ∈ t.entries) :
    t.find? name = some id := by
  unfold Symbols.find?
  obtain ⟨entries⟩ := t
  dsimp only at hNames h ⊢
  induction entries with
  | nil => cases h
  | cons entry entries ih =>
    rw [List.map_cons, List.nodup_cons] at hNames
    rw [List.find?_cons]
    by_cases hHead : entry.1 == name
    · -- another entry of the same name would stand behind this one
      rcases List.mem_cons.1 h with rfl | hRest
      · simp
      · refine absurd (List.mem_map.2 ⟨_, hRest, ?_⟩) hNames.1
        exact (beq_iff_eq.1 hHead).symm
    · rcases List.mem_cons.1 h with rfl | hRest
      · simp at hHead
      · simp only [hHead]
        exact ih hNames.2 hRest

/-- What is found in a table stands in it. -/
theorem Symbols.mem_of_find? {t : Symbols} {name : String} {id : SlotId}
    (h : t.find? name = some id) : (name, id) ∈ t.entries := by
  obtain ⟨⟨name', id'⟩, hFind, rfl⟩ := Option.map_eq_some_iff.1 h
  have hName : name' = name := by simpa using List.find?_some hFind
  rw [← hName]
  exact List.mem_of_find?_eq_some hFind

/-- The claims are what the owners have. -/
theorem Balanced.mem_claims_iff {o : Owner} {id : SlotId} (hs : s.Balanced handles loose) :
    (o, id) ∈ s.claims ↔ s.Owns id o := by
  unfold claims
  rw [List.mem_append, List.mem_map, List.mem_flatMap]
  constructor
  · rintro (⟨⟨name, id'⟩, hMem, hEq⟩ | ⟨⟨entry, l⟩, hMem, hClaim⟩)
    · -- a claim of the table of names is what the lookup finds, as no name stands twice
      cases hEq
      exact Symbols.find?_of_mem hs.names hMem
    · obtain ⟨lit, position, rfl, rfl, hGet⟩ := mem_claimsOf_iff.1 hClaim
      rw [List.mk_mem_zipIdx_iff_getElem?, Array.getElem?_toList] at hMem
      exact ⟨lit, by rw [literal?, hMem]; rfl, hGet⟩
  · intro hOwns
    cases o with
    | symbol name => exact .inl ⟨(name, id), Symbols.mem_of_find? hOwns, rfl⟩
    | element l position =>
      obtain ⟨lit, hl, hGet⟩ := hOwns
      refine .inr ⟨(some lit, l), ?_, mem_claimsOf_iff.2 ⟨lit, position, rfl, rfl, hGet⟩⟩
      rw [List.mk_mem_zipIdx_iff_getElem?, Array.getElem?_toList]
      exact getElem?_of_literal? hl

/-- What is found once among the second parts of some pairs stands in one pair. -/
theorem existsUnique_of_count_eq_one {α β : Type} [DecidableEq β] {pairs : List (α × β)} {b : β}
    (h : (pairs.map (·.2)).count b = 1) : ∃! a, (a, b) ∈ pairs := by
  rw [List.count_eq_countP, List.countP_map, List.countP_eq_length_filter,
    List.length_eq_one_iff] at h
  obtain ⟨⟨a, b'⟩, hOnly⟩ := h
  have hMem (a' : α) : (a', b) ∈ pairs ↔ (a', b) = (a, b') := by
    rw [← List.mem_singleton, ← hOnly, List.mem_filter]
    simp
  have hFound : (a, b') ∈ pairs.filter ((fun x => x == b) ∘ fun x => x.2) := by
    rw [hOnly]
    exact List.mem_singleton_self _
  have hEq : b' = b := by simpa using (List.mem_filter.1 hFound).2
  subst hEq
  refine ⟨a, (hMem a).2 rfl, fun a' ha' => ?_⟩
  exact congrArg Prod.fst ((hMem a').1 ha')

/-- **Every slot in use has one owner**, when none is owned from outside. -/
theorem Balanced.existsUnique_owner {id : SlotId} {slot : Slot} (hs : s.Balanced handles 0)
    (hSlot : s.slot? id = some slot) : ∃! o, s.Owns id o := by
  have hSingle := hs.single id
  rw [hSlot, add_zero, ← slots_claims, Multiset.coe_count] at hSingle
  obtain ⟨o, hClaim, hOnly⟩ := existsUnique_of_count_eq_one hSingle
  refine ⟨o, hs.mem_claims_iff.1 hClaim, fun o' hOwns => ?_⟩
  exact hOnly o' (hs.mem_claims_iff.2 hOwns)

/-- What slots point at, counted by slots. -/
theorem count_pointed (s : Store) (l : LiteralId) : s.pointed.count l = s.slotsOn l := by
  -- one entry after the other: an entry points at one literal at most
  have hEntries (entries : List (Option Slot)) :
      ((entries : Multiset (Option Slot)).bind Slot.pointed).count l =
        entries.countP fun entry => entry.bind (·.target) == some l := by
    induction entries with
    | nil => rfl
    | cons entry entries ih =>
      rw [← Multiset.cons_coe, Multiset.cons_bind, Multiset.count_add, ih, List.countP_cons,
        add_comm]
      congr 1
      unfold Slot.pointed
      cases entry.bind (·.target) with
      | none => simp
      | some k =>
        by_cases hk : k = l
        · simp [hk]
        · have hOther : l ≠ k := fun hEq => hk hEq.symm
          simp [hk, hOther]
  unfold pointed slotsOn
  rw [hEntries, Array.countP_toList]

end Store

end Reckon
