import Reckon.Proofs.Acceptance
import Reckon.Proofs.Bindings
import Reckon.Proofs.Compilation
import Reckon.Proofs.Precedence
import Reckon.Proofs.Sessions

/-!
# Compiling and running is evaluating

The tokens of an expression, put into postfix order, checked and run, give what evaluating the tree
gives. On success that is the same value in the same store. On a failure it is the same fault. The
machine then gives up everything that it has in hand, which the evaluation leaves lying about; names
stand for the same values all the same.
-/

namespace Reckon

open Program Machine

namespace Machine

/-- A run has come to what an evaluation has come to. -/
def Matches (evaluated ran : Except Failure Object × Store) : Prop :=
  match evaluated.1, ran.1 with
  | .ok obj, .ok obj' => obj' = obj ∧ ran.2 = evaluated.2
  | .error e, .error e' => e'.fault = e.fault ∧ evaluated.2.SameBindings ran.2
  | _, _ => False

/-- At the end of a statement the last item is the result, and the others are given up. -/
theorem finish_taking (s t : Store) {items others : List Object} {last : Object}
    (hItems : items.reverse = last :: others) :
    (taking { store := s } items t).finish.1 = .ok last ∧
      (taking { store := s } items t).finish.2.store = t.releaseAll others.reverse := by
  rw [(fresh_start s).taking_eq hItems]
  simp [finish, releaseAll]

/-- What is in hand when an instruction fails is nothing that a name leads to. -/
theorem Keeps.sameBindings_abandon {m : Machine} {rest : Multiset Object} (hm : m.Keeps rest) :
    m.store.SameBindings m.abandon := by
  obtain ⟨objs, hEq, hHeld⟩ := m.exists_abandon_eq
  unfold Machine.Keeps at hm
  rw [← hHeld] at hm
  rw [hEq]
  exact (Store.Keeps.resembles_releaseAll hm).sameBindings

end Machine

/-- **Running the code of an expression is evaluating it.** -/
theorem Expr.Fits.matches_run {e : Expr} {p : Program} {s : Store} {rest : Multiset Object}
    (h : e.Fits) (hItems : e.SpreadsAreItems true) (hp : ofPostfix (e.code 0) = .ok p)
    (hs : s.Keeps rest) (hTame : s.Within Function.Tame) (script : String) :
    Matches (e.result script s) (p.run script s) := by
  obtain ⟨heights, hPlay, -, -, rfl⟩ := exists_play_of_ofPostfix hp
  obtain ⟨hKeeps, -⟩ := (keeps_start hs).steps (within_start hTame) ⟨rfl, rfl, rfl⟩
    Heights.sound_start script hPlay
  have hRun := h.realizes_items script hItems 0 (fresh_start s)
  unfold Expr.result Program.run Machine.run
  cases hEval : e.items script s with
  | mk answer t =>
    change Realizes _ (e.items script s) _ at hRun
    rw [hEval] at hRun
    cases answer with
    | ok items =>
      -- the machine stands at the end with all of the items
      have hSteps : steps script { store := s } (e.code 0) =
          (.ok (), taking { store := s } items t) := hRun
      have hSome := Expr.items_ne_nil hItems hEval
      obtain ⟨last, others, hLast⟩ :=
        List.exists_cons_of_ne_nil (mt List.reverse_eq_nil_iff.1 hSome)
      obtain ⟨hResult, hStore⟩ := finish_taking s t hLast
      dsimp only [Answer.andThen]
      rw [t.lastOf_eq hLast, hSteps]
      dsimp only
      generalize finish _ = q at hResult hStore
      obtain ⟨answer, n⟩ := q
      subst hResult
      exact ⟨rfl, hStore⟩
    | error err =>
      -- both have failed on the same store, and the machine gives up what it has
      obtain ⟨err', hError, hFault, hStore⟩ := hRun
      dsimp only [Answer.andThen]
      cases hSteps : steps script { store := s } (e.code 0) with
      | mk answer m =>
        rw [hSteps] at hError hStore hKeeps
        cases hError
        cases hStore
        exact ⟨hFault, hKeeps.sameBindings_abandon⟩

/-- A store that a program can be run against: that of a session, with or without the result of the
statement before. -/
def Store.Reachable (s : Store) : Prop :=
  ∃ c : Session, c.Reachable ∧ (s = c.store ∨ s = c.storeWithoutResult)

theorem Store.Reachable.kept {s : Store} (hs : s.Reachable) :
    ∃ rest, s.Keeps rest ∧ s.Within Function.Tame := by
  obtain ⟨c, hc, rfl | rfl⟩ := hs
  · exact ⟨c.held, hc.kept.store, hc.kept.tame⟩
  · exact ⟨0, hc.kept.storeWithoutResult⟩

/-- **Compiling and running an expression is evaluating it.** Take any expression in which spreads
are items of lists, and write it down with a group around every part that binds less tightly than
its place allows. Its tokens are a program. Run against any store that a session can come to, the
program comes to what evaluating the expression comes to. -/
theorem Expr.run_grouped (e : Expr) (spans : Expr → Span × Span) (script : String) (s : Store)
    (hItems : e.SpreadsAreItems true) (hs : s.Reachable) :
    ∃ p, Program.ofTokens (e.grouped spans).tokens = .ok p ∧
      Matches (e.result script s) (p.run script s) := by
  have hFits := e.grouped_fits spans
  obtain ⟨p, hp, -⟩ := hFits.exists_ofPostfix
  obtain ⟨rest, hKeeps, hTame⟩ := hs.kept
  refine ⟨p, ?_, ?_⟩
  · unfold Program.ofTokens
    rw [Postfix.ofTokens_of_fits hFits]
    exact hp
  · have hRun := hFits.matches_run (hItems.grouped spans) hp hKeeps hTame script
    unfold Expr.result at hRun ⊢
    rw [Expr.items_grouped script spans hItems] at hRun
    exact hRun

/-- The statement `*a, -(1 + 2)`, as a tree. -/
def Expr.spreadAndSum : Expr :=
  .comma ⟨2, 3⟩ (.prefixed ⟨.spread, Operator.isPrefix_spread⟩ ⟨0, 1⟩ (.name ⟨1, 2⟩))
    (.prefixed ⟨.minus, Operator.isPrefix_minus⟩ ⟨4, 5⟩
      (.binary ⟨.add, Operator.isBinary_add⟩ ⟨8, 9⟩ (.number .decimal ⟨6, 7⟩)
        (.number .decimal ⟨10, 11⟩)))

/-- Behind `a = {4, 5}` the statement runs to what its tree evaluates to. -/
theorem Expr.run_spreadAndSum :
    Expr.spreadAndSum.SpreadsAreItems true ∧
      ((Session.new {} (.seeded 0)).evaluate "a = {4, 5}").2.storeWithoutResult.Reachable ∧
      ∃ p, Program.ofTokens (Expr.spreadAndSum.grouped fun _ => (⟨5, 6⟩, ⟨11, 12⟩)).tokens = .ok p ∧
        Matches
          (Expr.spreadAndSum.result "*a, -(1 + 2)"
            ((Session.new {} (.seeded 0)).evaluate "a = {4, 5}").2.storeWithoutResult)
          (p.run "*a, -(1 + 2)"
            ((Session.new {} (.seeded 0)).evaluate "a = {4, 5}").2.storeWithoutResult) := by
  have hItems : Expr.spreadAndSum.SpreadsAreItems true := by
    simp [Expr.spreadAndSum, Expr.SpreadsAreItems]
  have hStore :
      ((Session.new {} (.seeded 0)).evaluate "a = {4, 5}").2.storeWithoutResult.Reachable :=
    ⟨_, .apply (.new {} (.seeded 0)) (.evaluate "a = {4, 5}") trivial, .inr rfl⟩
  exact ⟨hItems, hStore, Expr.run_grouped _ _ _ _ hItems hStore⟩

end Reckon
