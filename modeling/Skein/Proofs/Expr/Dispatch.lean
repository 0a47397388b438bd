import Skein.Expr.Stock
import Skein.Proofs.Expr.Effects
import Skein.Proofs.Expr.ListSafety
import Skein.Proofs.Expr.Symbols

set_option autoImplicit false

/-!
# Expr: calls decided early and late

How a call is carried out is decided when its source is read, or, if its name is not known there,
when it is evaluated.  The two ask in different orders: host functions come before keywords and list
definitions at first, and after list definitions later.  Where the names are apart the two agree.

An evaluation never adds or removes a host function or a list definition.  So a call comes out the
same if it is decided before the evaluation starts, and a source that is read with and without the
names of a sandbox has the same tokens once its calls are decided there.
-/

namespace Skein

open Outcome

/-! ## Deciding calls beforehand -/

namespace Host

variable {σ ε : Type} (h : Host σ ε)

/-- The token with its call decided as it would be in a state. -/
def decided (s : σ) : Token → Token
  | .function f => .function { f with kind := h.callKindOf s f }
  | token => token

section Decided

variable (s : σ)

theorem isFunction_decided (token : Token) : (h.decided s token).isFunction = token.isFunction := by
  cases token <;> rfl

theorem endsOperand_decided (token : Token) :
    (h.decided s token).endsOperand = token.endsOperand := by
  cases token <;> rfl

theorem isTemp_decided (token : Token) : (h.decided s token).isTemp = token.isTemp := by
  cases token <;> rfl

theorem plain_decided (called : Bool) (token : Token) :
    (h.decided s token).plain called = token.plain called := by
  cases token <;> rfl

theorem decided_withArity (arity : Nat) (token : Token) :
    h.decided s (token.withArity arity) = (h.decided s token).withArity arity := by
  cases token <;> rfl

theorem plainTokens_decided (tokens : List Token) :
    plainTokens (tokens.map (h.decided s)) = plainTokens tokens := by
  induction tokens with
  | nil => rfl
  | cons token rest ih =>
      have hopens : opensNext (rest.map (h.decided s)) = opensNext rest := by
        rw [← opensNext_plainTokens, ih, opensNext_plainTokens]
      rw [List.map_cons, plainTokens, plainTokens, ih, hopens, plain_decided]

theorem setArities_decided (counts : List (Nat × Nat)) (tokens : List Token) :
    (setArities counts tokens).map (h.decided s) =
      setArities counts (tokens.map (h.decided s)) := by
  refine List.ext_getElem? fun place => ?_
  rw [setArities, setArities, List.getElem?_map, List.getElem?_mapIdx, List.getElem?_mapIdx,
    List.getElem?_map]
  cases tokens[place]? with
  | none => rfl
  | some token =>
      refine congrArg some ?_
      dsimp only
      split
      · exact h.decided_withArity s _ token
      · rfl

end Decided

variable {h}

/-- A call that was decided in one state is the same in another where functions are defined as
before. -/
theorem callKindOf_decided {s t : σ} (hst : h.kindOf t = h.kindOf s) (f : FunctionRef) :
    h.callKindOf t { f with kind := h.callKindOf s f } = h.callKindOf t f := by
  obtain ⟨name, kind, arity⟩ := f
  cases kind with
  | unresolved =>
      show h.callKindOf t { name, kind := (h.kindOf s name).getD .unresolved, arity } =
        (h.kindOf t name).getD .unresolved
      rw [← hst]
      cases hkind : h.kindOf t name with
      | none =>
          show (h.kindOf t name).getD .unresolved = _
          rw [hkind]
      | some kind =>
          cases kind with
          | unresolved =>
              show (h.kindOf t name).getD .unresolved = _
              rw [hkind]
          | builtin _ | external | story | subscript => rfl
  | builtin _ | external | story | subscript => rfl

theorem step_decided {s t : σ} (hst : h.kindOf t = h.kindOf s) (temp : Bool) (m : Machine)
    (token : Token) : h.step temp m (h.decided s token) t = h.step temp m token t := by
  cases token with
  | function f =>
      have hcall (operands : List Operand) :
          h.call { f with kind := h.callKindOf s f } operands t = h.call f operands t := by
        show (h.callKind (h.callKindOf t { f with kind := h.callKindOf s f }) f.name operands >>= _)
          t = (h.callKind (h.callKindOf t f) f.name operands >>= _) t
        rw [callKindOf_decided hst]
      unfold decided step
      dsimp only
      split
      · rfl
      · exact bind_congr_left (hcall _) _
  | keyword _ | bool _ | int _ | float _ | str _ | list _ | path _ | operator _ _ | punct _
  | ident _ => rfl

variable (h) in
/-- Functions are defined as before. -/
def steady : Contract ε σ where
  kept s t := h.kindOf t = h.kindOf s
  failed _ _ _ := True
  refl _ := rfl
  trans hst htu := htu.trans hst
  failed_trans _ _ := trivial

theorem run_decided (hh : h.Honours h.steady) {s t : σ} (hst : h.kindOf t = h.kindOf s)
    (temp : Bool) (tokens : List Token) (m : Machine) (order : List Nat) :
    h.run temp (tokens.map (h.decided s)) m order t = h.run temp tokens m order t := by
  -- The state moves on with every step, but the functions stay those of the state `s`.
  induction order generalizing m t with
  | nil => rfl
  | cons place rest ih =>
      unfold run
      rw [List.getElem?_map]
      cases tokens[place]? with
      | none => rfl
      | some token =>
          have hstep : h.steady.Holds (h.step temp m token) :=
            Contract.holds_of_coupling fun start =>
              (hh.couples start).holds_step (fun _ _ hsame => ⟨hsame.1, trivial⟩) temp m token
          refine Ensures.bind_congr (hstep.allows t) (step_decided hst temp m token) ?_
          intro m' u hkept
          exact ih (hkept.trans hst) m'

/-- An evaluation comes out the same if all calls are decided before it. -/
theorem evaluate_decided (hh : h.Honours h.steady) (s : σ) (tokens : List Token)
    (order : List Nat) :
    h.evaluate (tokens.map (h.decided s)) order s = h.evaluate tokens order s := by
  have htemp : (tokens.map (h.decided s)).any Token.isTemp = tokens.any Token.isTemp := by
    rw [List.any_map]
    exact congrArg tokens.any (funext (h.isTemp_decided s))
  unfold evaluate
  rw [htemp]
  exact bind_congr_left (run_decided hh rfl _ _ _ _) _

end Host

/-! ## Sandboxes -/

theorem Store.registry_of_set {s t : Store} {name : String} {value : Value}
    (h : s.set name value = .ok t) : t.registry = s.registry := by
  simp only [Store.set] at h
  split at h
  · cases h
  · split at h
    · cases h
      rfl
    · split at h <;> cases h <;> rfl

theorem Externals.contains_of_call {externals called : Externals} {name : String}
    {args : List Value} {answer : Option Value}
    (h : externals.call name args = .ok (answer, called)) :
    called.contains = externals.contains := by
  unfold Externals.call at h
  split at h
  · cases h
  · next f hf =>
      cases h
      funext other
      rw [Table.contains, Table.contains, Table.get?_insert]
      split
      · next heq => rw [← heq, hf]; rfl
      · rfl

namespace Sandbox

theorem kindOf_eq (s : Sandbox) (name : String) :
    host.kindOf s name =
      if s.store.registry.containsName name then some .subscript
      else if s.externals.contains name then some .external else none := rfl

theorem kindOf_congr {s t : Sandbox} (hregistry : t.store.registry = s.store.registry)
    (hexternals : t.externals.contains = s.externals.contains) :
    host.kindOf t = host.kindOf s := by
  funext name
  rw [kindOf_eq, kindOf_eq, hregistry, hexternals]

/-- An evaluation neither defines nor removes functions. -/
theorem honours_steady : host.Honours host.steady where
  fail _ _ := trivial
  set hset := kindOf_congr (Store.registry_of_set hset) rfl
  declare _ _ _ := rfl
  random _ _ _ := rfl
  reseed _ _ := rfl
  callStory _ _ := Contract.holds_throw fun _ => trivial
  callExternal name args := by
    refine ⟨fun s => ?_⟩
    show Ensures _ _ (callExternal name args s)
    refine ensures_get ?_
    cases hcall : s.externals.call name args with
    | error fault => exact trivial
    | ok called => exact kindOf_congr rfl (Externals.contains_of_call hcall)

end Sandbox

/-! ## Names that are called only -/

/-- Whether the lexeme is a known name. -/
def Lexeme.isNameOf (known : String → Bool) : Lexeme → Bool
  | .word name => known (String.ofList name)
  | _ => false

/-- Whether known names are followed by an opening parenthesis wherever they stand in a run of
lexemes, except behind an arrow.  `inPath` says that an arrow stands before the run. -/
def callsOnly (known : String → Bool) (inPath : Bool) : List Piece → Bool
  | [] => true
  | piece :: rest =>
    (inPath || !piece.lexeme.isNameOf known || isCalled rest) &&
      callsOnly known (piece.lexeme = .arrow) rest

theorem callsOnly_of_arrow {known : String → Bool} {inPath : Bool} {piece : Piece}
    {rest : List Piece} (h : callsOnly known inPath (piece :: rest) = true)
    (hpiece : piece.lexeme = .arrow) : callsOnly known true rest = true := by
  have hrest := (Bool.and_eq_true_iff.mp h).2
  rwa [decide_eq_true hpiece] at hrest

theorem callsOnly_of_ne_arrow {known : String → Bool} {inPath : Bool} {piece : Piece}
    {rest : List Piece} (h : callsOnly known inPath (piece :: rest) = true)
    (hpiece : piece.lexeme ≠ .arrow) : callsOnly known false rest = true := by
  have hrest := (Bool.and_eq_true_iff.mp h).2
  rwa [decide_eq_false hpiece] at hrest

theorem isCalled_of_callsOnly {known : String → Bool} {piece : Piece} {rest : List Piece}
    {name : List Char} (h : callsOnly known false (piece :: rest) = true)
    (hword : piece.lexeme = .word name) (hknown : known (String.ofList name) = true) :
    isCalled rest = true := by
  have hfirst := (Bool.and_eq_true_iff.mp h).1
  rw [hword] at hfirst
  simpa [Lexeme.isNameOf, hknown] using hfirst

namespace Sandbox

/-- No host function has the name of a keyword or of a list definition. -/
structure NamesApart (s : Sandbox) : Prop where
  keyword : ∀ k : Keyword, s.externals.contains k.text = false
  list : ∀ name, s.externals.contains name = true → s.store.registry.containsName name = false

/-- Whether host functions are called wherever their names stand in a source, except in paths. -/
def callsExternals (s : Sandbox) (source : String) : Bool :=
  (lex source.toList).toOption.all (callsOnly s.externals.contains false)

variable {s : Sandbox}

theorem NamesApart.spareKeywords (hs : s.NamesApart) : s.symbols.SpareKeywords :=
  fun k => ⟨hs.keyword k, rfl⟩

/-- A call that is left open is decided by the list definitions first. -/
theorem decided_unresolved (s : Sandbox) (name : String) :
    host.decided s (functionToken name .unresolved) =
      functionToken name (if s.store.registry.containsName name then .subscript
        else if s.externals.contains name then .external else .unresolved) := by
  show functionToken name ((host.kindOf s name).getD .unresolved) = _
  rw [kindOf_eq]
  cases s.store.registry.containsName name with
  | true => rfl
  | false => cases s.externals.contains name <;> rfl

theorem decided_classifyName (hs : s.NamesApart) {name : String} {called : Bool}
    (hcalled : s.externals.contains name = true → called = true) :
    host.decided s (classifyName s.symbols name called) =
      host.decided s (classifyName Symbols.none name called) := by
  by_cases hkeyword : ∃ k : Keyword, name = k.text
  · obtain ⟨k, rfl⟩ := hkeyword
    rw [classifyName_keyword hs.spareKeywords, classifyName_keyword Symbols.spareKeywords_none]
  have htemp : name ≠ "temp" := fun heq => hkeyword ⟨.temp, heq⟩
  have hreturn : name ≠ "return" := fun heq => hkeyword ⟨.ret, heq⟩
  cases hbuiltin : Builtin.ofName? name with
  | some b => simp only [classifyName, hbuiltin]
  | none =>
      have hstory : s.symbols.story name = false := rfl
      have hnone : Symbols.none.external name = false ∧ Symbols.none.story name = false ∧
        Symbols.none.list name = false := ⟨rfl, rfl, rfl⟩
      simp only [classifyName, hbuiltin, htemp, hreturn, hstory, hnone, if_false,
        Bool.false_eq_true]
      by_cases hexternal : s.symbols.external name = true
      · -- Known early, it is found late as well: it is called, and no list has its name.
        have hcontains : s.externals.contains name = true := hexternal
        rw [if_pos hexternal, hcalled hexternal, if_pos rfl, decided_unresolved,
          hs.list name hexternal, hcontains]
        rfl
      · have hcontains : s.externals.contains name = false := eq_false_of_ne_true hexternal
        rw [if_neg hexternal]
        cases called with
        | false => rfl
        | true =>
            rw [if_pos rfl, if_pos rfl, decided_unresolved, hcontains]
            by_cases hlist : s.symbols.list name = true
            · have hdefined : s.store.registry.containsName name = true := hlist
              rw [if_pos hlist, hdefined]
              rfl
            · have hdefined : s.store.registry.containsName name = false :=
                eq_false_of_ne_true hlist
              rw [if_neg hlist, decided_unresolved, hdefined, hcontains]

theorem decided_classify (hs : s.NamesApart) {name : String} {called : Bool}
    (hcalled : s.externals.contains name = true → called = true) :
    host.decided s (classify s.symbols name called) =
      host.decided s (classify Symbols.none name called) := by
  unfold classify
  split
  · rfl
  · split
    · rfl
    · split
      · rfl
      · exact decided_classifyName hs hcalled

theorem decided_tokenOf (hs : s.NamesApart) {previous other : Option Token}
    (hprevious : previous.map (host.decided s) = other.map (host.decided s)) {piece : Piece}
    {rest : List Piece} (hcalls : callsOnly s.externals.contains false (piece :: rest) = true) :
    (tokenOf s.symbols previous piece (isCalled rest)).map (host.decided s) =
      (tokenOf Symbols.none other piece (isCalled rest)).map (host.decided s) := by
  have hafter : afterOperand previous = afterOperand other := by
    cases previous with
    | none =>
        cases other with
        | none => rfl
        | some token => cases hprevious
    | some token =>
        cases other with
        | none => cases hprevious
        | some token' =>
            show token.endsOperand = token'.endsOperand
            rw [← host.endsOperand_decided s token, Option.some.inj hprevious,
              host.endsOperand_decided]
  unfold tokenOf
  rw [hafter]
  cases hpiece : piece.lexeme with
  | word name =>
      exact congrArg Except.ok
        (decided_classify hs fun hexternal => isCalled_of_callsOnly hcalls hpiece hexternal)
  | _ => rfl

theorem isFunction_of_decided {previous other : Option Token}
    (h : previous.map (host.decided s) = other.map (host.decided s)) :
    previous.any Token.isFunction = other.any Token.isFunction := by
  have hany (token : Option Token) :
      (token.map (host.decided s)).any Token.isFunction = token.any Token.isFunction := by
    cases token with
    | none => rfl
    | some token => exact host.isFunction_decided s token
  rw [← hany, h, hany]

theorem map_decided_cons {token other : Token} {tail otherTail : Except ExprFault (List Token)}
    (htoken : host.decided s token = host.decided s other)
    (htail : tail.map (List.map (host.decided s)) = otherTail.map (List.map (host.decided s))) :
    (do return token :: (← tail) : Except ExprFault (List Token)).map
        (List.map (host.decided s)) =
      (do return other :: (← otherTail) : Except ExprFault (List Token)).map
        (List.map (host.decided s)) := by
  refine map_bind_congr htail fun tokens others _ _ hdecided => ?_
  show Except.ok (host.decided s token :: tokens.map _) =
    Except.ok (host.decided s other :: others.map _)
  rw [htoken, hdecided]

/-- Read with the names of a sandbox or without them, the tokens are the same once their calls are
decided there. -/
theorem decided_tokensOf (hs : s.NamesApart) {size : Nat} {previous other : Option Token}
    {inPath : Bool} {pieces : List Piece}
    (hprevious : previous.map (host.decided s) = other.map (host.decided s))
    (hcalls : callsOnly s.externals.contains inPath pieces = true) :
    (tokensOf s.symbols size previous inPath pieces).map (List.map (host.decided s)) =
      (tokensOf Symbols.none size other inPath pieces).map (List.map (host.decided s)) := by
  fun_induction tokensOf s.symbols size previous inPath pieces generalizing other with
  | case1 => rfl
  | case2 previous inPath hpath => rw [tokensOf, if_neg hpath]
  | case3 previous piece rest name hname token =>
      rename_i ih
      have hword : piece.lexeme ≠ .arrow := by simp [hname]
      rw [tokensOf_path hname]
      exact map_decided_cons rfl (ih rfl (callsOnly_of_ne_arrow hcalls hword))
  | case4 previous piece rest hname => rw [tokensOf_not_path hname]
  | case5 previous inPath piece hpath rest harrow ih =>
      obtain rfl := eq_false_of_ne_true hpath
      rw [tokensOf_arrow harrow]
      exact ih hprevious (callsOnly_of_arrow hcalls harrow)
  | case6 previous inPath piece hpath next later hopen hempty token =>
      rename_i ih
      obtain rfl := eq_false_of_ne_true hpath
      have hopening : piece.lexeme ≠ .arrow := by simp [hopen]
      have hclosing : next.lexeme ≠ .arrow := by
        simp [of_decide_eq_true (Bool.and_eq_true_iff.mp hempty).1]
      rw [tokensOf_opening hopen, ← isFunction_of_decided hprevious, if_pos hempty]
      exact map_decided_cons rfl
        (ih rfl (callsOnly_of_ne_arrow (callsOnly_of_ne_arrow hcalls hopening) hclosing))
  | case7 previous inPath piece hpath next later hopen hempty token =>
      rename_i ih
      obtain rfl := eq_false_of_ne_true hpath
      have hopening : piece.lexeme ≠ .arrow := by simp [hopen]
      rw [tokensOf_opening hopen, ← isFunction_of_decided hprevious, if_neg hempty]
      exact map_decided_cons rfl (ih rfl (callsOnly_of_ne_arrow hcalls hopening))
  | case8 previous inPath piece hpath rest harrow hopen ih =>
      obtain rfl := eq_false_of_ne_true hpath
      have hopen' (heq : piece.lexeme = .openParen) : rest = [] := by
        cases rest with
        | nil => rfl
        | cons next later => exact absurd rfl (hopen next later heq)
      rw [tokensOf_other harrow hopen']
      refine map_bind_congr (decided_tokenOf hs hprevious hcalls) ?_
      intro token token' _ _ hdecided
      exact map_decided_cons hdecided
        (ih token (congrArg some hdecided) (callsOnly_of_ne_arrow hcalls harrow))

/-! ## Sources -/

theorem decided_tokenize (hs : s.NamesApart) {source : String}
    (hcalls : s.callsExternals source = true) :
    (tokenize s.symbols source).map (List.map (host.decided s)) =
      (tokenize Symbols.none source).map (List.map (host.decided s)) := by
  have hlex : (lex source.toList).map id = (lex source.toList).map id := rfl
  refine map_bind_congr hlex ?_
  rintro pieces _ hpieces _ rfl
  have hpieceCalls : callsOnly s.externals.contains false pieces = true := by
    rw [callsExternals, hpieces] at hcalls
    exact hcalls
  refine map_bind_congr (decided_tokensOf hs rfl hpieceCalls) ?_
  intro tokens tokens' _ _ hdecided
  have hplain : plainTokens tokens = plainTokens tokens' := by
    rw [← host.plainTokens_decided s tokens, hdecided, host.plainTokens_decided]
  have hcounts : countArguments none 0 [] tokens = countArguments none 0 [] tokens' := by
    rw [← countArguments_plainTokens, hplain, countArguments_plainTokens]
  refine map_bind_congr (congrArg (Except.map id) hcounts) ?_
  rintro counts _ _ _ rfl
  show Except.ok ((setArities counts tokens).map (host.decided s)) =
    Except.ok ((setArities counts tokens').map (host.decided s))
  rw [host.setArities_decided, host.setArities_decided, hdecided]

theorem decided_parse (hs : s.NamesApart) {source : String}
    (hcalls : s.callsExternals source = true) :
    (Expression.parse s.symbols source).map
        (fun e => (e.tokens.map (host.decided s), e.order)) =
      (Expression.parse Symbols.none source).map
        (fun e => (e.tokens.map (host.decided s), e.order)) := by
  refine map_bind_congr (decided_tokenize hs hcalls) ?_
  intro tokens tokens' _ _ hdecided
  have horder : postorder tokens = postorder tokens' := by
    rw [← postorder_plainTokens, ← host.plainTokens_decided s tokens, hdecided,
      host.plainTokens_decided, postorder_plainTokens]
  have hempty : tokens.isEmpty = tokens'.isEmpty := by
    rw [← List.isEmpty_map (f := host.decided s), hdecided, List.isEmpty_map]
  rw [hempty, horder]
  cases tokens'.isEmpty with
  | true => rfl
  | false =>
      cases postorder tokens' with
      | error fault => rfl
      | ok order =>
          show Except.ok (tokens.map (host.decided s), order) =
            Except.ok (tokens'.map (host.decided s), order)
          rw [hdecided]

/-- Reads a source with some names known and evaluates it. -/
def evaluateWith (symbols : Symbols) (source : String) :
    EStateM ExprFault Sandbox Evaluation :=
  match Expression.parse symbols source with
  | .ok e => e.evaluate host
  | .error fault => throw fault

theorem eval_eq (source : String) (s : Sandbox) :
    eval source s = (do return (← evaluateWith s.symbols source).value) s := by
  refine (run_of_eq_ok rfl).trans ?_
  unfold evaluateWith
  cases Expression.parse s.symbols source with
  | ok e => rfl
  | error fault => rfl

/-- Calls that are decided when a source is read are decided as they would be when it is evaluated:
the names of the sandbox make no difference to the value and whether it was returned, to the fault,
or to the sandbox that is left. -/
theorem early_dispatch_eq_late (hs : s.NamesApart) {source : String}
    (hcalls : s.callsExternals source = true) :
    evaluateWith s.symbols source s = evaluateWith Symbols.none source s ∧
      eval source s = (do return (← evaluateWith Symbols.none source).value) s := by
  have hsame : evaluateWith s.symbols source s = evaluateWith Symbols.none source s := by
    have hparse := decided_parse hs hcalls
    unfold evaluateWith
    cases hearly : Expression.parse s.symbols source with
    | error fault =>
        rw [hearly] at hparse
        cases hlate : Expression.parse Symbols.none source with
        | error fault' =>
            rw [hlate] at hparse
            rw [Except.error.inj hparse]
        | ok late =>
            rw [hlate] at hparse
            cases hparse
    | ok early =>
        rw [hearly] at hparse
        cases hlate : Expression.parse Symbols.none source with
        | error fault =>
            rw [hlate] at hparse
            cases hparse
        | ok late =>
            rw [hlate] at hparse
            obtain ⟨htokens, horder⟩ := Prod.mk.inj (Except.ok.inj hparse)
            show host.evaluate early.tokens early.order s = host.evaluate late.tokens late.order s
            rw [← Host.evaluate_decided honours_steady, htokens, horder,
              Host.evaluate_decided honours_steady]
  exact ⟨hsame, (eval_eq source s).trans (bind_congr_left hsame _)⟩

/-- A sandbox with colours and a host function that counts. -/
def tally : Sandbox := painter.bind "count" External.count

/-- Both ways of reading find the host function and the list definition, though their tokens
differ. -/
theorem early_dispatch_eq_late_of_tally :
    tally.NamesApart ∧
      tally.callsExternals "count(1, -> count) + LIST_VALUE(Color(2))" = true ∧
      (Expression.parse tally.symbols "count(1, -> count) + LIST_VALUE(Color(2))").toOption ≠
        (Expression.parse Symbols.none "count(1, -> count) + LIST_VALUE(Color(2))").toOption ∧
      evaluateWith tally.symbols "count(1, -> count) + LIST_VALUE(Color(2))" tally =
        evaluateWith Symbols.none "count(1, -> count) + LIST_VALUE(Color(2))" tally := by
  have hcontains (name : String) (h : tally.externals.contains name = true) : name = "count" := by
    by_cases heq : "count" = name
    · exact heq.symm
    · rw [tally, bind, Table.contains, Table.get?_insert, if_neg heq] at h
      cases h
  have hapart : tally.NamesApart :=
    { keyword := fun k => by cases k <;> decide
      list := fun name h => by
        rw [hcontains name h]
        decide }
  have hcalls : tally.callsExternals "count(1, -> count) + LIST_VALUE(Color(2))" = true := by
    decide +kernel
  exact ⟨hapart, hcalls, by decide +kernel, (early_dispatch_eq_late hapart hcalls).1⟩

end Sandbox

end Skein
