import Skein.Expr.Sandbox
import Skein.Proofs.Story.Effects

set_option autoImplicit false

/-!
# Story: expressions that change nothing

Most of what an evaluation does is to look: at variables, list definitions, visits and turns.  Three
things change its host.  An assignment or a step sign writes a variable, two functions draw and one
starts the randomness anew, and functions of the host or of the story may do anything.  An
expression without them leaves the host exactly as it was, also where it fails, and so the
conditions of choices and of branches that are made of such expressions can be checked as often as
one likes.

An evaluation that never does one of these things cannot tell whether they would do anything.  So it
is enough to look at a host whose variables, randomness and functions are out of reach.
-/

namespace Skein

open Outcome

variable {σ ε : Type}

/-! ## Hosts that look alike -/

/-- Two hosts show an evaluation the same: variables, counts and the causes of failures. -/
structure Host.Agrees (g h : Host σ ε) : Prop where
  fault : g.fault = h.fault
  store : g.store = h.store
  readCount : g.readCount = h.readCount
  turnsSince : g.turnsSince = h.turnsSince
  turnIndex : g.turnIndex = h.turnIndex
  choiceCount : g.choiceCount = h.choiceCount

/-- Whether a built-in function draws. -/
def Builtin.draws : Builtin → Bool
  | random | listRandom => true
  | _ => false

section Agrees

attribute [local irreducible] Number.readFloat?

theorem Builtin.call_congr {g h : Host σ ε} (hgh : g.Agrees h) {b : Builtin}
    (hdraws : b.draws = true → g.random = h.random)
    (hreseeds : b = .seedRandom → g.reseed = h.reseed) (args : List Value) :
    b.call g args = b.call h args := by
  obtain ⟨_, _, gset, _, _, _, _, grandom, greseed, gstory?, gstory, gexternal?, gexternal⟩ := g
  obtain ⟨_, _, hset, _, _, _, _, hrandom, hreseed, hstory?, hstory, hexternal?, hexternal⟩ := h
  obtain ⟨rfl, rfl, rfl, rfl, rfl, rfl⟩ := hgh
  match args with
  | [] => cases b <;> rfl
  | [v] =>
      cases b with
      | listRandom =>
          obtain rfl := hdraws rfl
          rfl
      | seedRandom =>
          obtain rfl := hreseeds rfl
          rfl
      | int | float | floor | ceiling | readCount => cases v <;> rfl
      | random | pow | min | max | turns | turnsSince | choiceCount | listCount | listMin
      | listMax | listAll | listInvert | listRange | listValue => rfl
  | [v, w] =>
      cases b with
      | random =>
          obtain rfl := hdraws rfl
          rfl
      | int | float | floor | ceiling | readCount => cases v <;> rfl
      | seedRandom | pow | min | max | turns | turnsSince | choiceCount | listCount | listMin
      | listMax | listAll | listInvert | listRange | listValue | listRandom => rfl
  | v :: _ :: _ :: rest =>
      cases b with
      | int | float | floor | ceiling | readCount => cases v <;> rfl
      | listRange => cases rest <;> rfl
      | random | seedRandom | pow | min | max | turns | turnsSince | choiceCount | listCount
      | listMin | listMax | listAll | listInvert | listValue | listRandom => rfl

end Agrees

theorem Host.Agrees.arguments_eq {g h : Host σ ε} (hgh : g.Agrees h) (function : String)
    (operands : List Operand) : g.arguments function operands = h.arguments function operands := by
  obtain ⟨_, _, gset, _, _, _, _, grandom, greseed, gstory?, gstory, gexternal?, gexternal⟩ := g
  obtain ⟨_, _, hset, _, _, _, _, hrandom, hreseed, hstory?, hstory, hexternal?, hexternal⟩ := h
  obtain ⟨rfl, rfl, rfl, rfl, rfl, rfl⟩ := hgh
  induction operands with
  | nil => rfl
  | cons operand rest ih =>
      rw [Host.arguments, Host.arguments, ih]
      rfl

/-! ## Tokens that change nothing -/

/-- Whether the operator leaves variables alone: it neither assigns nor steps. -/
def Operator.isSilent : Operator → Bool
  | assign | addAssign | subAssign | increment | decrement => false
  | _ => true

/-- Whether the built-in function leaves the randomness alone. -/
def Builtin.isSilent (b : Builtin) : Bool := !b.draws && b ≠ .seedRandom

/-- Whether a call leaves the host alone: what is called is built in, and leaves the randomness
alone. -/
def CallKind.isSilent : CallKind → Bool
  | .builtin b => b.isSilent
  | _ => false

/-- Whether evaluating the token leaves the host alone. -/
def Token.isSilent : Token → Bool
  | .operator op _ => op.isSilent
  | .function f => f.kind.isSilent
  | _ => true

/-- Nothing changes, done or failed. -/
def unchanged (ε σ : Type) : Contract ε σ where
  kept s t := t = s
  failed s _ t := t = s
  refl _ := rfl
  trans hst htu := htu.trans hst
  failed_trans hst htu := htu.trans hst

namespace Host

variable (h : Host σ ε)

/-- The host with all that could change its state out of reach. -/
def muted : Host σ ε :=
  { h with
    withStore := fun s _ => s
    random := fun low _ s => (low, s)
    reseed := fun _ s => s
    callStory := fun name _ => h.fail (.unknownFunction name)
    callExternal := fun name _ => h.fail (.unknownFunction name) }

theorem muted_agrees : h.muted.Agrees h := ⟨rfl, rfl, rfl, rfl, rfl, rfl⟩

theorem honours_unchanged : h.muted.Honours (unchanged ε σ) where
  fail _ _ := rfl
  set _ := rfl
  declare _ _ _ := rfl
  random _ _ _ := rfl
  reseed _ _ := rfl
  callStory _ _ := Contract.holds_throw fun _ => rfl
  callExternal _ _ := Contract.holds_throw fun _ => rfl

theorem storeStep_muted {unary : Unary} (hunary : unary ≠ .increment ∧ unary ≠ .decrement)
    (operand : Operand) (result : Value) :
    h.muted.storeStep unary operand result = h.storeStep unary operand result := by
  cases unary with
  | increment => exact absurd rfl hunary.1
  | decrement => exact absurd rfl hunary.2
  | negate | not => rfl

theorem applyUnary_muted {op : Operator} (hop : op.isSilent = true) (operand : Operand) :
    h.muted.applyUnary op operand = h.applyUnary op operand := by
  unfold Host.applyUnary
  cases hunary : op.unary? with
  | none => rfl
  | some unary =>
      have hsteps : unary ≠ .increment ∧ unary ≠ .decrement := by
        constructor
        · rintro rfl
          cases op <;> cases hunary
          cases hop
        · rintro rfl
          cases op <;> cases hunary
          cases hop
      simp only [h.storeStep_muted hsteps]
      rfl

theorem stepOperator_muted {op : Operator} (hop : op.isSilent = true) (temp : Bool) (m : Machine)
    (fixity : Fixity) :
    h.muted.stepOperator temp m op fixity = h.stepOperator temp m op fixity := by
  have hassigns : op.isAssignment = false := by
    cases op with
    | assign | addAssign | subAssign => cases hop
    | _ => rfl
  unfold Host.stepOperator
  rw [hassigns, if_neg Bool.false_ne_true, if_neg Bool.false_ne_true]
  simp only [h.applyUnary_muted hop]
  rfl

theorem call_muted {f : FunctionRef} (hf : f.kind.isSilent = true) (operands : List Operand) :
    h.muted.call f operands = h.call f operands := by
  obtain ⟨name, kind, arity⟩ := f
  cases kind with
  | external | story | subscript | unresolved => cases hf
  | builtin b =>
      have hcall : b.call h.muted = b.call h := by
        funext args
        have hsilent : b.draws = false ∧ b ≠ .seedRandom := by
          simpa [CallKind.isSilent, Builtin.isSilent] using hf
        refine Builtin.call_congr h.muted_agrees ?_ ?_ args
        · intro hdraws
          cases hsilent.1.symm.trans hdraws
        · intro hreseeds
          exact absurd hreseeds hsilent.2
      funext s
      show (h.muted.arguments name operands >>= b.call h.muted >>= fun answer =>
        (pure (.ofOption answer) : EStateM ε σ Operand)) s = _
      rw [h.muted_agrees.arguments_eq, hcall]
      rfl

theorem step_muted {token : Token} (htoken : token.isSilent = true) (temp : Bool) (m : Machine) :
    h.muted.step temp m token = h.step temp m token := by
  cases token with
  | operator op fixity => exact h.stepOperator_muted htoken temp m fixity
  | function f =>
      unfold Host.step
      simp only [h.call_muted htoken]
      rfl
  | keyword k => cases k <;> rfl
  | bool _ | int _ | float _ | str _ | list _ | path _ | punct _ | ident _ => rfl

theorem run_muted {tokens : List Token} {order : List Nat}
    (hsilent : ∀ place ∈ order, ∀ token, tokens[place]? = some token → token.isSilent = true)
    (temp : Bool) (m : Machine) : h.muted.run temp tokens m order = h.run temp tokens m order := by
  induction order generalizing m with
  | nil => rfl
  | cons place rest ih =>
      obtain ⟨hplace, hrest⟩ := List.forall_mem_cons.mp hsilent
      unfold Host.run
      split
      · rfl
      · next token htoken =>
          rw [h.step_muted (hplace token htoken)]
          exact bind_congr fun m => ih hrest m

theorem holds_evaluate_of_silent {tokens : List Token} {order : List Nat}
    (hsilent : ∀ place ∈ order, ∀ token, tokens[place]? = some token → token.isSilent = true) :
    (unchanged ε σ).Holds (h.evaluate tokens order) := by
  have hmuted : h.muted.evaluate tokens order = h.evaluate tokens order := by
    unfold Host.evaluate
    rw [h.run_muted hsilent]
    rfl
  rw [← hmuted]
  refine Contract.holds_of_coupling fun start => ?_
  refine (h.honours_unchanged.couples start).holds_evaluate ?_ tokens order
  rintro s _ ⟨rfl, hs⟩
  exact ⟨rfl, hs⟩

end Host

/-! ## Checking again and again -/

/-- The outcome that leaves a state as it is. -/
def Outcome.inState {α : Type} (s : σ) : Except ε α → EStateM.Result ε σ α
  | .ok a => .ok a s
  | .error e => .error e s

theorem Contract.Holds.exists_inState {α : Type} {x : EStateM ε σ α}
    (hx : (unchanged ε σ).Holds x) (s : σ) : ∃ result, x s = inState s result := by
  have hallows := hx.allows s
  cases hrun : x s with
  | ok a t =>
      rw [hrun] at hallows
      obtain rfl : t = s := hallows
      exact ⟨.ok a, rfl⟩
  | error e t =>
      rw [hrun] at hallows
      obtain rfl : t = s := hallows
      exact ⟨.error e, rfl⟩

/-- What leaves the state as it is comes out the same every time. -/
theorem Outcome.mapM_replicate {α : Type} {x : EStateM ε σ α} {s : σ} {result : Except ε α}
    (hx : x s = inState s result) (n : Nat) :
    (List.replicate n x).mapM id s = inState s ((List.replicate n result).mapM id) := by
  induction n with
  | zero => rfl
  | succ n ih =>
      rw [List.replicate_succ, List.replicate_succ, List.mapM_cons, List.mapM_cons]
      cases result with
      | error e => exact run_of_eq_error hx
      | ok a =>
          rw [id_eq, run_of_eq_ok hx]
          cases hrest : (List.replicate n (Except.ok a : Except ε α)).mapM id with
          | error e =>
              rw [hrest] at ih
              exact run_of_eq_error ih
          | ok rest =>
              rw [hrest] at ih
              exact run_of_eq_ok ih

/-- Whether evaluating the expression leaves the host alone. -/
def Expression.isSilent (e : Expression) : Bool := e.ordered.all Token.isSilent

theorem Expression.holds_evaluate {e : Expression} (he : e.isSilent = true) (h : Host σ ε) :
    (unchanged ε σ).Holds (e.evaluate h) := by
  refine h.holds_evaluate_of_silent fun place hplace token htoken => ?_
  exact List.all_eq_true.mp he token (List.mem_filterMap.mpr ⟨place, hplace, htoken⟩)

namespace Story

variable {story : Story} {run : Call}

theorem unchanged_allHold {conditions : List Expression}
    (hconditions : ∀ e ∈ conditions, e.isSilent = true) :
    (unchanged StoryFault State).Holds (story.allHold run conditions) :=
  Contract.holds_of_coupling fun start => State.Couples.holds_allHold fun e he =>
    (Expression.holds_evaluate (hconditions e he) _).coupling start

theorem unchanged_isCase (subject : Option Value) {case : Expression}
    (hcase : case.isSilent = true) :
    (unchanged StoryFault State).Holds (story.isCase run subject case) := by
  refine ((Expression.holds_evaluate hcase _).bind fun _ => Contract.holds_pure _).bind
    fun value => ?_
  split
  · next subject value =>
      refine Contract.holds_get.bind fun s => Contract.Holds.bind ?_ fun _ => Contract.holds_pure _
      cases Binary.equal.apply subject value s.store.registry with
      | ok equal => exact Contract.holds_pure equal
      | error fault => exact Contract.holds_throw fun _ => rfl
  · exact Contract.holds_pure _

theorem unchanged_pickBranch? {subject : Option Expression} {branches : List Branch}
    (hsubject : ∀ e ∈ subject, e.isSilent = true)
    (hbranches : ∀ branch ∈ branches, branch.condition.isSilent = true) :
    (unchanged StoryFault State).Holds (story.pickBranch? run subject branches) := by
  have hfirst {test : Expression → Flow Bool}
      (htest : ∀ branch ∈ branches, (unchanged StoryFault State).Holds (test branch.condition)) :
      (unchanged StoryFault State).Holds (firstBranch? test 0 branches) :=
    Contract.holds_of_coupling fun start => State.Couples.holds_firstBranch?
      (fun branch hbranch => (htest branch hbranch).coupling start) 0
  cases subject with
  | none =>
      refine hfirst fun branch hbranch => ?_
      refine Contract.Holds.bind ?_ fun _ => Contract.holds_pure _
      exact (Expression.holds_evaluate (hbranches branch hbranch) _).bind
        fun _ => Contract.holds_pure _
  | some e =>
      refine Contract.Holds.bind (Contract.Holds.bind (Expression.holds_evaluate (hsubject e rfl) _)
        fun _ => Contract.holds_pure _) fun value => ?_
      exact hfirst fun branch hbranch => unchanged_isCase value (hbranches branch hbranch)

end Story

/-- Tokens that neither assign nor step a variable, and call built-in functions only that leave the
randomness alone, are evaluated without a change of the host, in any order and also where that
fails.  So they come out the same each time, however often they are evaluated.  The conditions of a
choice and those of branches, with what they are compared to, leave a story as it is if they are
made of such tokens. -/
theorem state_of_silent :
    (∀ (σ ε : Type) (h : Host σ ε) (tokens : List Token) (order : List Nat) (s : σ),
      (∀ place ∈ order, ∀ token, tokens[place]? = some token → token.isSilent = true) →
      ∃ result : Except ε Evaluation, h.evaluate tokens order s = inState s result ∧
        ∀ n, (List.replicate n (h.evaluate tokens order)).mapM id s =
          inState s ((List.replicate n result).mapM id)) ∧
    (∀ (story : Story) (run : Call) (conditions : List Expression) (s : State),
      (∀ e ∈ conditions, e.isSilent = true) →
      ∃ result, story.allHold run conditions s = inState s result) ∧
    ∀ (story : Story) (run : Call) (subject : Option Expression) (branches : List Branch)
      (s : State), (∀ e ∈ subject, e.isSilent = true) →
      (∀ branch ∈ branches, branch.condition.isSilent = true) →
      ∃ result, story.pickBranch? run subject branches s = inState s result := by
  refine ⟨?_, ?_, ?_⟩
  · intro σ ε h tokens order s hsilent
    obtain ⟨result, hresult⟩ := (h.holds_evaluate_of_silent hsilent).exists_inState s
    exact ⟨result, hresult, mapM_replicate hresult⟩
  · intro story run conditions s hconditions
    exact (Story.unchanged_allHold hconditions).exists_inState s
  · intro story run subject branches s hsubject hbranches
    exact (Story.unchanged_pickBranch? hsubject hbranches).exists_inState s

/-- The condition `oil > 2 && MAX(oil, 3) == 5`. -/
def enoughOil : Expression where
  source := "oil > 2 && MAX(oil, 3) == 5"
  tokens :=
    [.ident "oil", .operator .greater .between, .int 2, .operator .and .between,
      .function ⟨"MAX", .builtin .max, 2⟩, .punct .opening, .ident "oil", .punct .comma, .int 3,
      .punct .closing, .operator .equal .between, .int 5]
  order := [0, 2, 1, 6, 8, 4, 11, 10, 3]

/-- A sandbox with oil. -/
def lantern : Sandbox :=
  { generator := .ofSeed 7, store := ({} : Store).defineGlobal "oil" (.int 5) }

/-- There is enough oil, however often one looks, and looking takes none of it. -/
theorem state_of_silent_lantern :
    enoughOil.isSilent = true ∧
      (∀ n, (List.replicate n (enoughOil.evaluate Sandbox.host)).mapM id lantern =
        inState lantern ((List.replicate n (.ok ⟨some (.bool true), false⟩)).mapM id)) ∧
      ∀ (story : Story) (run : Call) (s : State),
        ∃ result, story.allHold run [enoughOil, enoughOil] s = inState s result := by
  have hsilent : enoughOil.isSilent = true := by decide
  have htokens : ∀ place ∈ enoughOil.order, ∀ token, enoughOil.tokens[place]? = some token →
      token.isSilent = true := by
    intro place hplace token htoken
    exact List.all_eq_true.mp hsilent token (List.mem_filterMap.mpr ⟨place, hplace, htoken⟩)
  have hvalue : enoughOil.evaluate Sandbox.host lantern =
      .ok ⟨some (.bool true), false⟩ lantern := rfl
  obtain ⟨hevaluate, hconditions, _⟩ := state_of_silent
  refine ⟨hsilent, ?_, fun story run s => hconditions story run _ s ?_⟩
  · obtain ⟨result, hresult, hagain⟩ :=
      hevaluate _ _ Sandbox.host enoughOil.tokens _ lantern htokens
    obtain rfl : result = .ok ⟨some (.bool true), false⟩ := by
      cases result with
      | error fault => cases hresult.symm.trans hvalue
      | ok evaluation =>
          cases hresult.symm.trans hvalue
          rfl
    exact hagain
  · exact List.forall_mem_cons.mpr ⟨hsilent, List.forall_mem_cons.mpr ⟨hsilent, nofun⟩⟩

end Skein
