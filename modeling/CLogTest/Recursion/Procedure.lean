import Mathlib.Order.WellFounded
import CLogTest.Recursion.CallTree

set_option autoImplicit false

/-! # Recursive procedures with an effect on entry

`RecProc α β` is a recursive procedure from arguments `α` to results `β`, given by what one
activation does (`Resume`: return, or call and continue with the result) and a well-founded relation
that its calls descend. `RecProc.eval` runs it, returning the result together with the call tree.

Two rules are derived for every such procedure:

* `RecProc.run_eq_foldl` — an implementation that threads a state and acts on it once per
  activation, on entry, computes the value of the procedure and leaves the fold of its effect over
  the visits of the call tree. The result and the order of the effects do not depend on the effect.
* `RecProc.eval_sim` — a procedure that matches another one activation by activation, as long as no
  activation with a bad argument is entered, returns the matching result through the relabelled call
  tree. -/

/-- What an activation does after its entry effect: return a value, or make a call and continue with
    the value returned. -/
inductive Resume (α β : Type*)
  | ret (value : β)
  | call (arg : α) (k : β → Resume α β)

namespace Resume

variable {α β α' β' σ : Type*}

/-- Every call that may still be made has an argument below `a`. -/
def Below (rel : α → α → Prop) (a : α) : Resume α β → Prop
  | ret _ => True
  | call arg k => rel arg a ∧ ∀ b, (k b).Below rel a

/-- Run the rest of an activation, answering its calls by `answer`: the value returned and the call
    trees of the calls, in order. -/
def trees (answer : α → β × CallTree α) : Resume α β → β × List (CallTree α)
  | ret b => (b, [])
  | call arg k =>
      let (b, t) := answer arg
      let (v, ts) := (k b).trees answer
      (v, t :: ts)

/-- Run the rest of an activation over a state, answering its calls by `answer`. -/
def run (answer : α → σ → β × σ) : Resume α β → σ → β × σ
  | ret b, s => (b, s)
  | call arg k, s =>
      let (b, s') := answer arg s
      (k b).run answer s'

/-- `Sim f g r r'`: the rests `r` and `r'` make the same calls and return the same value, through
    the translations `f` of arguments and `g` of values. -/
inductive Sim (f : α → α') (g : β → β') : Resume α β → Resume α' β' → Prop
  | ret (b : β) : Sim f g (ret b) (ret (g b))
  | call (arg : α) (k : β → Resume α β) (k' : β' → Resume α' β')
      (h : ∀ b, Sim f g (k b) (k' (g b))) : Sim f g (call arg k) (call (f arg) k')

end Resume

/-- A recursive procedure: what one activation does, and a well-founded relation its calls descend
    whatever the inner calls return. -/
structure RecProc (α β : Type*) where
  body : α → Resume α β
  rel : α → α → Prop
  wf : WellFounded rel
  below : ∀ a, (body a).Below rel a

namespace RecProc

variable {α β α' β' σ : Type*}

/-- `Resume.trees` when calls below `a` only can be answered. -/
def treesBelow (rel : α → α → Prop) (a : α) (answer : ∀ arg, rel arg a → β × CallTree α) :
    (r : Resume α β) → r.Below rel a → β × List (CallTree α)
  | .ret b, _ => (b, [])
  | .call arg k, h =>
      let (b, t) := answer arg h.1
      let (v, ts) := treesBelow rel a answer (k b) (h.2 b)
      (v, t :: ts)

/-- The value and the call tree of the activation with argument `a`. -/
def eval (P : RecProc α β) (a : α) : β × CallTree α :=
  let (v, ts) := treesBelow P.rel a (fun arg _ => P.eval arg) (P.body a) (P.below a)
  (v, .node a ts)
termination_by P.wf.wrap a

theorem treesBelow_eq_trees (rel : α → α → Prop) (a : α) (answer : α → β × CallTree α)
    (r : Resume α β) (h : r.Below rel a) :
    treesBelow rel a (fun arg _ => answer arg) r h = r.trees answer := by
  induction r with
  | ret b => rfl
  | call arg k ih => simp only [treesBelow, Resume.trees, ih]

/-- The value returned by the activation with argument `a`. -/
def value (P : RecProc α β) (a : α) : β := (P.eval a).1

/-- The call tree of the activation with argument `a`. -/
def callTree (P : RecProc α β) (a : α) : CallTree α := (P.eval a).2

/-- The arguments of all activations below and including `a`, in the order they are entered. -/
def calls (P : RecProc α β) (a : α) : List α := (P.callTree a).visits

/-- An activation runs its body and answers the calls in it by itself. -/
theorem eval_eq (P : RecProc α β) (a : α) :
    P.eval a = (((P.body a).trees P.eval).1, .node a ((P.body a).trees P.eval).2) := by
  rw [eval, treesBelow_eq_trees]

/-! ## Effects on entry -/

/-- **Effects do not interfere.** Let `F` run the procedure over a state, acting on the state by
    `effect` on entry of every activation. Then `F` returns the value of the procedure, and the
    final state is the fold of `effect` over the activations in the order they are entered. -/
theorem run_eq_foldl (P : RecProc α β) (effect : σ → α → σ) (F : α → σ → β × σ)
    (hF : ∀ a s, F a s = (P.body a).run F (effect s a)) (a : α) (s : σ) :
    F a s = (P.value a, (P.calls a).foldl effect s) := by
  induction a using P.wf.induction generalizing s with
  | _ a ih =>
      have hrun : ∀ (r : Resume α β), r.Below P.rel a → ∀ s,
          r.run F s = ((r.trees P.eval).1,
            (CallTree.visitsAll (r.trees P.eval).2).foldl effect s) := by
        intro r
        induction r with
        | ret b => intro _ s; simp [Resume.run, Resume.trees]
        | call arg k ihk =>
            intro hbelow s
            simp only [Resume.run, Resume.trees, ih arg hbelow.1]
            rw [ihk _ (hbelow.2 _)]
            simp [value, calls, callTree]
      rw [hF, hrun _ (P.below a)]
      simp [value, calls, callTree, P.eval_eq a]

/-! ## Simulation -/

/-- One activation of the simulation: once every call below `a` is matched, so is the rest of
    `a`. -/
theorem trees_sim (P : RecProc α β) (Q : RecProc α' β') (f : α → α') (g : β → β') (bad : α → Prop)
    (a : α) (ih : ∀ arg, P.rel arg a → (∀ x ∈ P.calls arg, ¬ bad x) →
      Q.eval (f arg) = (g (P.value arg), (P.callTree arg).map f))
    {r : Resume α β} {r' : Resume α' β'} (hsim : Resume.Sim f g r r') (hbelow : r.Below P.rel a)
    (hgood : ∀ x ∈ CallTree.visitsAll (r.trees P.eval).2, ¬ bad x) :
    r'.trees Q.eval = (g (r.trees P.eval).1, CallTree.mapAll f (r.trees P.eval).2) := by
  induction hsim with
  | ret b => simp [Resume.trees]
  | call arg k k' _ ihk =>
      simp only [Resume.trees, CallTree.visitsAll_cons, List.mem_append] at hgood
      have harg := ih arg hbelow.1 (fun x hx => hgood x (Or.inl hx))
      simp only [Resume.trees, harg]
      rw [show g (P.value arg) = g (P.eval arg).1 from rfl,
        ihk _ (hbelow.2 _) (fun x hx => hgood x (Or.inr hx))]
      simp [callTree]

/-- **Simulation up to bad arguments.** If the bodies match at every argument that is not bad and
    the run of `P` from `a` enters no activation with a bad argument, then `Q` returns the matching
    value through the relabelled call tree. -/
theorem eval_sim (P : RecProc α β) (Q : RecProc α' β') (f : α → α') (g : β → β') (bad : α → Prop)
    (hbody : ∀ a, ¬ bad a → Resume.Sim f g (P.body a) (Q.body (f a))) (a : α)
    (hgood : ∀ x ∈ P.calls a, ¬ bad x) :
    Q.eval (f a) = (g (P.value a), (P.callTree a).map f) := by
  induction a using P.wf.induction with
  | _ a ih =>
      have hcalls : P.calls a = a :: CallTree.visitsAll ((P.body a).trees P.eval).2 := by
        simp [calls, callTree, P.eval_eq a]
      rw [hcalls] at hgood
      have hroot : ¬ bad a := hgood a (List.mem_cons_self ..)
      have hrest := trees_sim P Q f g bad a ih (hbody a hroot) (P.below a)
        (fun x hx => hgood x (List.mem_cons_of_mem _ hx))
      rw [Q.eval_eq, hrest]
      simp [value, callTree, P.eval_eq a]

end RecProc
