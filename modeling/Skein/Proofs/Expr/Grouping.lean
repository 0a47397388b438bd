import Mathlib.Data.List.TakeWhile
import Skein.Proofs.Expr.EvaluationOrder

set_option autoImplicit false

/-!
# Expr: what parentheses and commas allow

The evaluation order of a list of tokens, whatever they are and whether or not they make sense
together.  Only parentheses and commas decide whether there is one: how many parentheses are
open is counted along the tokens, a closing parenthesis and a comma need one that is, and at the
end none may be.  The stack of held tokens has an opening parenthesis for each one that is open,
and every other token of the tokens read is either held or found, once.
-/

namespace Skein

/-! ## Parentheses that are open -/

namespace Token

/-- Whether the token is a parenthesis or a comma. -/
def isPunct : Token → Bool
  | punct _ => true
  | _ => false

/-- Whether the token can only stand where a parenthesis is open. -/
def needsOpen : Token → Bool
  | punct .closing | punct .comma => true
  | _ => false

/-- The number of open parentheses after the token, given the number before it.  A closing
parenthesis closes the one opened last. -/
def nest (depth : Nat) : Token → Nat
  | punct .opening => depth + 1
  | punct .closing => depth - 1
  | _ => depth

/-- The place of the token, if it is one that is evaluated. -/
def evaluated (place : Nat) (token : Token) : List Nat :=
  if token.isPunct then [] else [place]

end Token

/-- The number of parentheses that are open after some tokens, given the number before them. -/
def unclosed (depth : Nat) (tokens : List Token) : Nat := tokens.foldl Token.nest depth

/-- The token at a place needs an open parenthesis, and there is none. -/
def Offends (depth : Nat) (tokens : List Token) (place : Nat) : Prop :=
  tokens[place]?.any Token.needsOpen = true ∧ unclosed depth (tokens.take place) = 0

instance (depth : Nat) (tokens : List Token) (place : Nat) :
    Decidable (Offends depth tokens place) := inferInstanceAs (Decidable (_ ∧ _))

theorem lt_length_of_offends {depth : Nat} {tokens : List Token} {place : Nat}
    (h : Offends depth tokens place) : place < tokens.length := by
  by_contra hle
  rw [Offends, List.getElem?_eq_none (Nat.le_of_not_lt hle)] at h
  cases h.1

/-- The token at a place offends, and none before it does. -/
def OffendsFirst (depth : Nat) (tokens : List Token) (place : Nat) : Prop :=
  Offends depth tokens place ∧ ∀ earlier < place, ¬Offends depth tokens earlier

theorem OffendsFirst.unique {depth : Nat} {tokens : List Token} {place other : Nat}
    (h : OffendsFirst depth tokens place) (h' : OffendsFirst depth tokens other) :
    place = other := by
  rcases Nat.lt_trichotomy place other with hlt | heq | hgt
  · exact absurd h.1 (h'.2 place hlt)
  · exact heq
  · exact absurd h'.1 (h.2 other hgt)

/-- The places of the tokens that are evaluated, counted from a place on. -/
def evaluatedFrom (place : Nat) : List Token → List Nat
  | [] => []
  | token :: rest => token.evaluated place ++ evaluatedFrom (place + 1) rest

section Cons

variable {depth : Nat} {token : Token} {rest : List Token}

theorem offends_zero : Offends depth (token :: rest) 0 ↔ token.needsOpen = true ∧ depth = 0 := by
  simp [Offends, unclosed]

theorem offends_succ {place : Nat} :
    Offends depth (token :: rest) (place + 1) ↔ Offends (token.nest depth) rest place := by
  simp [Offends, unclosed]

/-- If the first token does not offend, the others offend first where they do without it. -/
theorem offendsFirst_succ {place : Nat} (hfirst : ¬(token.needsOpen = true ∧ depth = 0))
    (h : OffendsFirst (token.nest depth) rest place) :
    OffendsFirst depth (token :: rest) (place + 1) := by
  refine ⟨offends_succ.mpr h.1, ?_⟩
  intro earlier hlt hoffends
  cases earlier with
  | zero => exact hfirst (offends_zero.mp hoffends)
  | succ earlier => exact h.2 earlier (Nat.lt_of_succ_lt_succ hlt) (offends_succ.mp hoffends)

theorem not_offends_nil (place : Nat) : ¬Offends depth [] place := by
  simp [Offends]

/-- If neither the first token offends nor any other without it, none does. -/
theorem not_offends_cons (hfirst : ¬(token.needsOpen = true ∧ depth = 0))
    (hlater : ∀ place, ¬Offends (token.nest depth) rest place) (place : Nat) :
    ¬Offends depth (token :: rest) place := by
  intro hoffends
  cases place with
  | zero => exact hfirst (offends_zero.mp hoffends)
  | succ place => exact hlater place (offends_succ.mp hoffends)

end Cons

/-- The places of the tokens that are evaluated are those that hold no punctuation. -/
theorem evaluatedFrom_eq (place : Nat) (tokens : List Token) :
    evaluatedFrom place tokens =
      ((List.range tokens.length).filter fun index => tokens[index]?.any (!·.isPunct)).map
        (place + ·) := by
  induction tokens generalizing place with
  | nil => rfl
  | cons token rest ih =>
      have hshift : (place + ·) ∘ Nat.succ = (place + 1 + ·) := by
        funext index
        show place + (index + 1) = place + 1 + index
        omega
      rw [evaluatedFrom, ih, List.length_cons, List.range_succ_eq_map, List.filter_cons,
        List.filter_map, Token.evaluated]
      cases hpunct : token.isPunct with
      | true => simp [Function.comp_def, hpunct, ← hshift]
      | false => simp [Function.comp_def, hpunct, ← hshift]

/-! ## What is held -/

/-- The number of opening parentheses that are held. -/
def openings (held : List Held) : Nat := held.countP Held.isOpening

/-- The places of the tokens that are held and will be evaluated. -/
def waiting (held : List Held) : List Nat := (held.filter (!·.isOpening)).map (·.1)

section Held

variable {held inner outer : List Held}

theorem waiting_append : waiting (inner ++ outer) = waiting inner ++ waiting outer := by
  simp [waiting]

theorem openings_append : openings (inner ++ outer) = openings inner + openings outer :=
  List.countP_append

/-- Where nothing opens a parenthesis, everything waits. -/
theorem waiting_of_shut (h : ∀ other ∈ inner, other.isOpening = false) :
    waiting inner = inner.map (·.1) ∧ openings inner = 0 := by
  constructor
  · rw [waiting, List.filter_eq_self.mpr (by simpa using h)]
  · exact List.countP_eq_zero.mpr (by simpa using h)

/-- An operator never lets an opening parenthesis go. -/
theorem shut_of_precedes {op : Operator} {other : Held} (h : Held.precedes op other = true) :
    other.isOpening = false := by
  obtain ⟨place, token⟩ := other
  cases token with
  | punct _ => cases h
  | _ => simp [Held.isOpening]

/-- What is held is cut where a test first fails; if the test fails for opening parentheses, what
comes before the cut waits and opens none. -/
theorem cut_of_shut {test : Held → Bool} (htest : ∀ other, test other = true →
      other.isOpening = false) (held : List Held) :
    waiting held = (held.takeWhile test).map (·.1) ++ waiting (held.dropWhile test) ∧
      openings held = openings (held.dropWhile test) := by
  have hshut : ∀ other ∈ held.takeWhile test, other.isOpening = false := by
    intro other hother
    exact htest other (List.mem_takeWhile_imp hother)
  obtain ⟨hwaiting, hopenings⟩ := waiting_of_shut hshut
  have hsplit : held.takeWhile test ++ held.dropWhile test = held := List.takeWhile_append_dropWhile
  constructor
  · rw [← hwaiting, ← waiting_append, hsplit]
  · have hcount : openings held =
        openings (held.takeWhile test) + openings (held.dropWhile test) := by
      rw [← openings_append, hsplit]
    rw [hcount, hopenings, Nat.zero_add]

/-- Where a parenthesis is open, the tokens of the innermost group are held above it. -/
theorem exists_group (h : openings held ≠ 0) :
    ∃ (inner : List Held) (start : Nat) (outer : List Held),
      held = inner ++ (start, .punct .opening) :: outer ∧
        ∀ other ∈ inner, other.isOpening = false := by
  induction held with
  | nil => exact absurd rfl h
  | cons first rest ih =>
      cases hfirst : first.isOpening with
      | true =>
          obtain ⟨start, token⟩ := first
          obtain rfl : token = .punct .opening := of_decide_eq_true hfirst
          exact ⟨[], start, rest, rfl, by simp⟩
      | false =>
          rw [openings, List.countP_cons_of_neg (by simp [hfirst])] at h
          obtain ⟨inner, start, outer, rfl, hinner⟩ := ih h
          refine ⟨first :: inner, start, outer, rfl, ?_⟩
          intro other hother
          rcases List.mem_cons.mp hother with rfl | hother
          · exact hfirst
          · exact hinner other hother

/-- The tokens of a group wait, and its parenthesis is one more than those around it. -/
theorem waiting_group (hinner : ∀ other ∈ inner, other.isOpening = false) (start : Nat)
    (outer : List Held) :
    waiting (inner ++ (start, .punct .opening) :: outer) = inner.map (·.1) ++ waiting outer ∧
      openings (inner ++ (start, .punct .opening) :: outer) = openings outer + 1 := by
  obtain ⟨hwaiting, hopenings⟩ := waiting_of_shut hinner
  constructor
  · rw [waiting_append, hwaiting]
    rfl
  · rw [openings_append, hopenings, Nat.zero_add]
    exact List.countP_cons_of_pos rfl

theorem dropWhile_of_shut (h : openings held = 0) :
    held.dropWhile (fun other => !other.isOpening) = [] := by
  rw [List.dropWhile_eq_nil_iff]
  intro other hother
  have hshut := List.countP_eq_zero.mp h other hother
  simpa using hshut

end Held

/-! ## One token -/

/-- A token that needs an open parenthesis and has none is the end. -/
theorem orderFrom_offence (place : Nat) {held : List Held} {token : Token} (rest : List Token)
    (hneeds : token.needsOpen = true) (hheld : openings held = 0) :
    token = .punct .closing ∧
        orderFrom place held (token :: rest) = .error (.unmatchedParen place) ∨
      token = .punct .comma ∧
        orderFrom place held (token :: rest) = .error (.misplacedComma place) := by
  cases token with
  | punct p =>
      cases p with
      | opening => cases hneeds
      | closing =>
          refine .inl ⟨rfl, ?_⟩
          rw [orderFrom, dropWhile_of_shut hheld]
      | comma =>
          refine .inr ⟨rfl, ?_⟩
          rw [orderFrom, dropWhile_of_shut hheld]
  | _ => cases hneeds

/-- What reading a token does: some places are found, the rest is read with other tokens held,
as many parentheses are open as the token leaves open, and what waited and the token itself are
found or wait. -/
def Moves (place : Nat) (held : List Held) (token : Token) (rest : List Token) : Prop :=
  ∃ found held', orderFrom place held (token :: rest) =
      emit found (orderFrom (place + 1) held' rest) ∧
    openings held' = token.nest (openings held) ∧
    (found ++ waiting held').Perm (waiting held ++ token.evaluated place)

theorem emit_nil (later : Except ExprFault (List Nat)) : emit [] later = later := by
  cases later <;> rfl

section Moves

variable {place : Nat} {held : List Held} {rest : List Token}

theorem moves_found {token : Token} (hpunct : token.isPunct = false)
    (h : orderFrom place held (token :: rest) = emit [place] (orderFrom (place + 1) held rest)) :
    Moves place held token rest := by
  refine ⟨[place], held, h, ?_, ?_⟩
  · cases token with
    | punct _ => cases hpunct
    | _ => rfl
  · rw [Token.evaluated, hpunct]
    exact List.perm_append_comm

theorem moves_held {token : Token} (hpunct : token.isPunct = false)
    (h : orderFrom place held (token :: rest) =
      orderFrom (place + 1) ((place, token) :: held) rest) :
    Moves place held token rest := by
  have hshut : Held.isOpening (place, token) = false := by
    cases token with
    | punct _ => cases hpunct
    | _ => simp [Held.isOpening]
  refine ⟨[], (place, token) :: held, ?_, ?_, ?_⟩
  · rw [emit_nil]
    exact h
  · rw [openings, List.countP_cons_of_neg (by simp [hshut])]
    cases token with
    | punct _ => cases hpunct
    | _ => rfl
  · rw [Token.evaluated, hpunct, List.nil_append, waiting, List.filter_cons, hshut]
    exact (List.perm_append_singleton place (waiting held)).symm

/-- An operator takes the place of those that precede it. -/
theorem moves_between (op : Operator) : Moves place held (.operator op .between) rest := by
  obtain ⟨hwaiting, hopenings⟩ :=
    cut_of_shut (fun _ h => shut_of_precedes (h : Held.precedes op _ = true)) held
  refine ⟨_, _, orderFrom_between place held rest op, ?_, ?_⟩
  · exact hopenings.symm
  · rw [hwaiting, List.append_assoc]
    exact (List.perm_append_singleton place _).symm.append_left _

theorem moves_opening : Moves place held (.punct .opening) rest := by
  refine ⟨[], (place, .punct .opening) :: held, ?_, ?_, ?_⟩
  · rw [emit_nil]
    rfl
  · exact List.countP_cons_of_pos rfl
  · rw [Token.evaluated, List.nil_append]
    exact .of_eq (List.append_nil _).symm

/-- A comma lets go of what its argument held. -/
theorem moves_comma (h : openings held ≠ 0) : Moves place held (.punct .comma) rest := by
  obtain ⟨inner, start, outer, rfl, hinner⟩ := exists_group h
  obtain ⟨hwaiting, hopenings⟩ := waiting_group hinner start outer
  refine ⟨_, _, orderFrom_comma rest hinner start, ?_, ?_⟩
  · rw [hopenings]
    exact List.countP_cons_of_pos rfl
  · rw [hwaiting]
    exact .of_eq (List.append_nil _).symm

/-- A closing parenthesis lets go of what its group held, and of the function that was called. -/
theorem moves_closing (h : openings held ≠ 0) : Moves place held (.punct .closing) rest := by
  obtain ⟨inner, start, outer, rfl, hinner⟩ := exists_group h
  obtain ⟨hwaiting, hopenings⟩ := waiting_group hinner start outer
  have hgroup (houter : ∀ top ∈ outer.head?, top.2.isFunction = false) :
      Moves place (inner ++ (start, .punct .opening) :: outer) (.punct .closing) rest := by
    refine ⟨_, _, orderFrom_closing_group rest hinner start houter, ?_, ?_⟩
    · rw [hopenings]
      rfl
    · rw [hwaiting]
      exact .of_eq (List.append_nil _).symm
  cases outer with
  | nil => exact hgroup (by simp)
  | cons top below =>
      obtain ⟨function, token⟩ := top
      cases token with
      | function f =>
          refine ⟨_, _, orderFrom_closing_call rest hinner start function f, ?_, ?_⟩
          · rw [hopenings]
            rfl
          · rw [hwaiting, List.append_assoc]
            exact .of_eq (List.append_nil _).symm
      | _ => exact hgroup (by simp [Token.isFunction])

/-- Every token moves on, if a parenthesis is open where it needs one. -/
theorem moves_of_open (place : Nat) {token : Token} (rest : List Token)
    (h : ¬(token.needsOpen = true ∧ openings held = 0)) : Moves place held token rest := by
  have hopen (hneeds : token.needsOpen = true) : openings held ≠ 0 := fun hheld => h ⟨hneeds, hheld⟩
  cases token with
  | keyword _ => exact moves_held rfl rfl
  | operator op fixity =>
      cases fixity with
      | before => exact moves_held rfl rfl
      | after => exact moves_found rfl (orderFrom_after place held rest op)
      | between => exact moves_between op
  | punct p =>
      cases p with
      | opening => exact moves_opening
      | closing => exact moves_closing (hopen rfl)
      | comma => exact moves_comma (hopen rfl)
  | function f =>
      cases hnext : opensNext rest with
      | false => exact moves_found rfl (orderFrom_name place held rest f hnext)
      | true =>
          refine moves_held rfl ?_
          rw [orderFrom, hnext]
          rfl
  | bool _ | int _ | float _ | str _ | list _ | path _ | ident _ =>
      exact moves_found rfl (orderFrom_operand place held rest rfl)

end Moves

/-! ## All tokens -/

theorem emit_eq_ok {found order : List Nat} {later : Except ExprFault (List Nat)}
    (h : emit found later = .ok order) : ∃ rest, later = .ok rest ∧ order = found ++ rest := by
  cases later with
  | ok rest => exact ⟨rest, rfl, (Except.ok.inj h).symm⟩
  | error fault => cases h

theorem emit_eq_error {found : List Nat} {later : Except ExprFault (List Nat)} {fault : ExprFault}
    (h : emit found later = .error fault) : later = .error fault := by
  cases later with
  | ok rest => cases h
  | error other => exact h

/-- Where an order is found no token offends and no parenthesis stays open, and the order has
what waited and what is to be evaluated. -/
theorem perm_of_orderFrom {place : Nat} {held : List Held} {tokens : List Token}
    {order : List Nat} (h : orderFrom place held tokens = .ok order) :
    (∀ index, ¬Offends (openings held) tokens index) ∧ unclosed (openings held) tokens = 0 ∧
      order.Perm (waiting held ++ evaluatedFrom place tokens) := by
  induction tokens generalizing place held order with
  | nil =>
      rw [orderFrom, release] at h
      split at h
      · cases h
      · next hopen =>
          have hshut : ∀ other ∈ held, other.isOpening = false := by simpa using hopen
          obtain ⟨hwaiting, hopenings⟩ := waiting_of_shut hshut
          refine ⟨not_offends_nil, hopenings, ?_⟩
          rw [hwaiting, evaluatedFrom, List.append_nil, Except.ok.inj h]
  | cons token rest ih =>
      have hfirst : ¬(token.needsOpen = true ∧ openings held = 0) := by
        rintro ⟨hneeds, hheld⟩
        rcases orderFrom_offence place rest hneeds hheld with ⟨_, hfault⟩ | ⟨_, hfault⟩
        · rw [hfault] at h
          cases h
        · rw [hfault] at h
          cases h
      obtain ⟨found, held', hmove, hopenings, hperm⟩ := moves_of_open place rest hfirst
      rw [hmove] at h
      obtain ⟨later, hlater, rfl⟩ := emit_eq_ok h
      obtain ⟨hoffends, hclosed, horder⟩ := ih hlater
      rw [hopenings] at hoffends hclosed
      refine ⟨not_offends_cons hfirst hoffends, hclosed, ?_⟩
      refine (horder.append_left found).trans ?_
      rw [← List.append_assoc, evaluatedFrom, ← List.append_assoc]
      exact hperm.append_right _

/-- Where no order is found, a token is the first to offend and is blamed, or a parenthesis stays
open. -/
theorem blame_of_orderFrom {place : Nat} {held : List Held} {tokens : List Token}
    {fault : ExprFault} (h : orderFrom place held tokens = .error fault) :
    (∃ index, OffendsFirst (openings held) tokens index ∧
        (tokens[index]? = some (.punct .closing) ∧ fault = .unmatchedParen (place + index) ∨
          tokens[index]? = some (.punct .comma) ∧ fault = .misplacedComma (place + index))) ∨
      (∀ index, ¬Offends (openings held) tokens index) ∧
        unclosed (openings held) tokens ≠ 0 ∧ fault = .unclosedParen := by
  induction tokens generalizing place held with
  | nil =>
      rw [orderFrom, release] at h
      split at h
      · next hopen =>
          refine .inr ⟨not_offends_nil, ?_, (Except.error.inj h).symm⟩
          intro hnone
          obtain ⟨other, hother, hopening⟩ := List.any_eq_true.mp hopen
          exact List.countP_eq_zero.mp hnone other hother hopening
      · cases h
  | cons token rest ih =>
      by_cases hfirst : token.needsOpen = true ∧ openings held = 0
      · refine .inl ⟨0, ⟨offends_zero.mpr hfirst, by simp⟩, ?_⟩
        rcases orderFrom_offence place rest hfirst.1 hfirst.2 with
          ⟨rfl, hfault⟩ | ⟨rfl, hfault⟩
        · rw [hfault] at h
          exact .inl ⟨rfl, (Except.error.inj h).symm⟩
        · rw [hfault] at h
          exact .inr ⟨rfl, (Except.error.inj h).symm⟩
      · obtain ⟨found, held', hmove, hopenings, _⟩ := moves_of_open place rest hfirst
        rw [hmove] at h
        have hlater := ih (emit_eq_error h)
        rw [hopenings] at hlater
        rcases hlater with ⟨index, hoffends, hblame⟩ | ⟨hoffends, hopen, hfault⟩
        · refine .inl ⟨index + 1, offendsFirst_succ hfirst hoffends, ?_⟩
          rw [List.getElem?_cons_succ, ← Nat.add_assoc, Nat.add_right_comm]
          exact hblame
        · exact .inr ⟨not_offends_cons hfirst hoffends, hopen, hfault⟩

/-- A token is blamed for one fault only. -/
theorem fault_unique {tokens : List Token} {place : Nat} {fault other : ExprFault}
    (h : tokens[place]? = some (.punct .closing) ∧ fault = .unmatchedParen place ∨
      tokens[place]? = some (.punct .comma) ∧ fault = .misplacedComma place)
    (h' : tokens[place]? = some (.punct .closing) ∧ other = .unmatchedParen place ∨
      tokens[place]? = some (.punct .comma) ∧ other = .misplacedComma place) : fault = other := by
  rcases h with ⟨htoken, rfl⟩ | ⟨htoken, rfl⟩
  · rcases h' with ⟨_, rfl⟩ | ⟨hother, _⟩
    · rfl
    · rw [htoken] at hother
      cases hother
  · rcases h' with ⟨hother, _⟩ | ⟨_, rfl⟩
    · rw [htoken] at hother
      cases hother
    · rfl

/-- Whatever the tokens, they have an evaluation order exactly if every closing parenthesis and
every comma comes where a parenthesis is open and none is open at the end.  The order then lists
every token but parentheses and commas once.  Else the first token that comes where no
parenthesis is open is blamed, or, if there is none, a parenthesis that stays open. -/
theorem postorder_of_any (tokens : List Token) :
    ((∃ order, postorder tokens = .ok order) ↔
        (∀ place, ¬Offends 0 tokens place) ∧ unclosed 0 tokens = 0) ∧
      (∀ order, postorder tokens = .ok order →
        order.Perm ((List.range tokens.length).filter fun place =>
          tokens[place]?.any (!·.isPunct))) ∧
      ∀ fault, postorder tokens = .error fault ↔
        (∃ place, OffendsFirst 0 tokens place ∧
          (tokens[place]? = some (.punct .closing) ∧ fault = .unmatchedParen place ∨
            tokens[place]? = some (.punct .comma) ∧ fault = .misplacedComma place)) ∨
        (∀ place, ¬Offends 0 tokens place) ∧ unclosed 0 tokens ≠ 0 ∧ fault = .unclosedParen := by
  have hblame (fault : ExprFault) (h : postorder tokens = .error fault) := blame_of_orderFrom h
  simp only [Nat.zero_add] at hblame
  refine ⟨⟨?_, ?_⟩, ?_, fun fault => ⟨hblame fault, ?_⟩⟩
  · rintro ⟨order, horder⟩
    obtain ⟨hoffends, hclosed, _⟩ := perm_of_orderFrom horder
    exact ⟨hoffends, hclosed⟩
  · rintro ⟨hoffends, hclosed⟩
    cases hrun : postorder tokens with
    | ok order => exact ⟨order, rfl⟩
    | error fault =>
        rcases hblame fault hrun with ⟨place, hfirst, _⟩ | ⟨_, hopen, _⟩
        · exact absurd hfirst.1 (hoffends place)
        · exact absurd hclosed hopen
  · intro order horder
    obtain ⟨_, _, hperm⟩ := perm_of_orderFrom horder
    rw [evaluatedFrom_eq] at hperm
    simpa [waiting] using hperm
  · intro hcause
    cases hrun : postorder tokens with
    | ok order =>
        obtain ⟨hoffends, hclosed, _⟩ := perm_of_orderFrom hrun
        rcases hcause with ⟨place, hfirst, _⟩ | ⟨_, hopen, _⟩
        · exact absurd hfirst.1 (hoffends place)
        · exact absurd hclosed hopen
    | error other =>
        -- The cause that was found is the one that is there, since the first offence is unique.
        refine congrArg Except.error ?_
        rcases hblame other hrun with ⟨found, hfound, hkind⟩ | ⟨hnone, _, hother⟩
        · rcases hcause with ⟨place, hfirst, hkind'⟩ | ⟨hnone, _⟩
          · obtain rfl := hfound.unique hfirst
            exact fault_unique hkind hkind'
          · exact absurd hfound.1 (hnone found)
        · rcases hcause with ⟨place, hfirst, _⟩ | ⟨_, _, hfault⟩
          · exact absurd hfirst.1 (hnone place)
          · exact hother.trans hfault.symm

/-- `+ MIN ( temp , ! ) return`, which makes no sense but has its parentheses in place. -/
def jumble : List Token :=
  [.operator .add .between, .function ⟨"MIN", .builtin .min, 2⟩, .punct .opening, .keyword .temp,
    .punct .comma, .operator .not .before, .punct .closing, .keyword .ret]

/-- The jumble has an order with all of its five words.  With one parenthesis less, the comma is
blamed and not the closing parenthesis after it; with one more, no token is. -/
theorem postorder_of_jumble :
    (∃ order, postorder jumble = .ok order ∧ order.Perm [0, 1, 3, 5, 7]) ∧
      postorder (jumble.eraseIdx 2) = .error (.misplacedComma 3) ∧
      postorder (.punct .opening :: jumble) = .error .unclosedParen := by
  have hnone : ∀ place, ¬Offends 0 jumble place := by
    intro place hoffends
    have hall : ∀ place < jumble.length, ¬Offends 0 jumble place := by decide
    exact hall place (lt_length_of_offends hoffends) hoffends
  have hopened : ∀ place, ¬Offends 0 (.punct .opening :: jumble) place := by
    intro place hoffends
    have hall : ∀ place < (.punct .opening :: jumble : List Token).length,
      ¬Offends 0 (.punct .opening :: jumble) place := by decide
    exact hall place (lt_length_of_offends hoffends) hoffends
  obtain ⟨hsucceeds, hperm, _⟩ := postorder_of_any jumble
  obtain ⟨_, _, hfails⟩ := postorder_of_any (jumble.eraseIdx 2)
  obtain ⟨_, _, hfails'⟩ := postorder_of_any (.punct .opening :: jumble)
  refine ⟨?_, ?_, ?_⟩
  · obtain ⟨order, horder⟩ := hsucceeds.mpr ⟨hnone, by decide⟩
    exact ⟨order, horder, hperm order horder⟩
  · exact (hfails _).mpr (.inl ⟨3, ⟨by decide, by decide⟩, .inr ⟨by decide, rfl⟩⟩)
  · exact (hfails' _).mpr (.inr ⟨hopened, by decide, rfl⟩)

end Skein
