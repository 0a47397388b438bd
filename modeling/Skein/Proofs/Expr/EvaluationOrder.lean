import Skein.Proofs.Expr.Tree

set_option autoImplicit false

/-!
# Expr: evaluation order is post-order

`postorder` reads tokens from left to right and holds operators, functions and parentheses
back on a stack.  On the tokens of a tree with its parentheses in place it succeeds, and
what it finds is the post-order of the tree.

When the last token of a tree has been read, part of the tree's post-order is still held:
the operators along its right edge, which wait to see whether a tighter operator follows.
So the tree's post-order is cut in two, what is `settled` and what is `pending`, and the
induction says how reading a tree moves from one stack to another.
-/

namespace Skein

/-! ## One token at a time -/

/-- Puts places in front of those found later. -/
def emit (places : List Nat) : Except ExprFault (List Nat) → Except ExprFault (List Nat)
  | .ok later => .ok (places ++ later)
  | .error fault => .error fault

@[simp] theorem emit_emit (front back : List Nat) (later : Except ExprFault (List Nat)) :
    emit front (emit back later) = emit (front ++ back) later := by
  cases later <;> simp [emit]

theorem emit_eq_bind (places : List Nat) (later : Except ExprFault (List Nat)) :
    emit places later = (do return places ++ (← later)) := by
  cases later <;> rfl

section Steps

variable (place : Nat) (held : List Held) (rest : List Token)

theorem orderFrom_operand {token : Token} (h : token.isOperand = true) :
    orderFrom place held (token :: rest) =
      emit [place] (orderFrom (place + 1) held rest) := by
  rw [emit_eq_bind]
  cases token with
  | bool _ | int _ | float _ | str _ | list _ | path _ | ident _ => rfl
  | keyword _ | operator _ _ | punct _ | function _ => simp [Token.isOperand] at h

theorem orderFrom_name (f : FunctionRef) (h : opensNext rest = false) :
    orderFrom place held (.function f :: rest) =
      emit [place] (orderFrom (place + 1) held rest) := by
  rw [orderFrom, h, emit_eq_bind]
  rfl

theorem orderFrom_called (f : FunctionRef) :
    orderFrom place held (.function f :: .punct .opening :: rest) =
      orderFrom (place + 2)
        ((place + 1, .punct .opening) :: (place, .function f) :: held) rest := by
  rfl

theorem orderFrom_after (op : Operator) :
    orderFrom place held (.operator op .after :: rest) =
      emit [place] (orderFrom (place + 1) held rest) := by
  rw [emit_eq_bind]
  rfl

theorem orderFrom_between (op : Operator) :
    orderFrom place held (.operator op .between :: rest) =
      emit ((held.takeWhile (Held.precedes op)).map (·.1))
        (orderFrom (place + 1)
          ((place, .operator op .between) :: held.dropWhile (Held.precedes op)) rest) := by
  rw [emit_eq_bind]
  rfl

variable {place} {inner outer : List Held}

theorem takeWhile_append_opening (hinner : ∀ other ∈ inner, other.isOpening = false)
    (start : Nat) :
    (inner ++ (start, .punct .opening) :: outer).takeWhile (fun other => !other.isOpening) =
      inner := by
  rw [List.takeWhile_append_of_pos (by simpa using hinner)]
  simp [Held.isOpening]

theorem dropWhile_append_opening (hinner : ∀ other ∈ inner, other.isOpening = false)
    (start : Nat) :
    (inner ++ (start, .punct .opening) :: outer).dropWhile (fun other => !other.isOpening) =
      (start, .punct .opening) :: outer := by
  rw [List.dropWhile_append_of_pos (by simpa using hinner)]
  simp [Held.isOpening]

theorem orderFrom_comma (hinner : ∀ other ∈ inner, other.isOpening = false) (start : Nat) :
    orderFrom place (inner ++ (start, .punct .opening) :: outer) (.punct .comma :: rest) =
      emit (inner.map (·.1))
        (orderFrom (place + 1) ((start, .punct .opening) :: outer) rest) := by
  rw [orderFrom, takeWhile_append_opening hinner, dropWhile_append_opening hinner,
    emit_eq_bind]

/-- A closing parenthesis that ends a call lets the function go as well. -/
theorem orderFrom_closing_call (hinner : ∀ other ∈ inner, other.isOpening = false)
    (start function : Nat) (f : FunctionRef) :
    orderFrom place
        (inner ++ (start, .punct .opening) :: (function, .function f) :: outer)
        (.punct .closing :: rest) =
      emit (inner.map (·.1) ++ [function]) (orderFrom (place + 1) outer rest) := by
  rw [orderFrom, takeWhile_append_opening hinner, dropWhile_append_opening hinner,
    emit_eq_bind]
  simp only [List.append_assoc, List.singleton_append]

/-- A closing parenthesis that ends a group lets go only of what the group held. -/
theorem orderFrom_closing_group (hinner : ∀ other ∈ inner, other.isOpening = false)
    (start : Nat) (houter : ∀ top ∈ outer.head?, top.2.isFunction = false) :
    orderFrom place (inner ++ (start, .punct .opening) :: outer) (.punct .closing :: rest) =
      emit (inner.map (·.1)) (orderFrom (place + 1) outer rest) := by
  rw [orderFrom, takeWhile_append_opening hinner, dropWhile_append_opening hinner]
  have hresult : ∀ (top : Held) (below : List Held), outer = top :: below →
      ∀ f, top.2 ≠ .function f := by
    intro top below houter' f hf
    have hnot := houter top (by simp [houter'])
    simp [hf, Token.isFunction] at hnot
  split
  · simp_all
  · rename_i heq
    simp only [List.cons.injEq] at heq
    exact absurd rfl (hresult _ _ heq.2 _)
  · rename_i heq
    simp only [List.cons.injEq] at heq
    rw [heq.2, emit_eq_bind]

end Steps

/-! ## What a tree leaves on the stack -/

namespace Tree

/-- The operators of a tree that are still held when its last token has been read, latest
first: those along its right edge. -/
def pending (place : Nat) : Tree → List Held
  | .before op inner => inner.pending (place + 1) ++ [(place, .operator op.1 .before)]
  | .between op lhs rhs =>
    rhs.pending (place + lhs.size + 1) ++ [(place + lhs.size, .operator op.1 .between)]
  | _ => []

/-- The places of a tree that are found by the time its last token has been read. -/
def settled (place : Nat) : Tree → List Nat
  | .before _ inner => inner.settled (place + 1)
  | .between _ lhs rhs => lhs.order place ++ rhs.settled (place + lhs.size + 1)
  | t => t.order place

/-- Nothing of a tree is lost: what is settled and what is pending make its post-order. -/
theorem settled_append_pending (t : Tree) (place : Nat) :
    t.settled place ++ (t.pending place).map (·.1) = t.order place := by
  induction t generalizing place with
  | before op inner ih =>
      simp only [settled, pending, order, List.map_append, List.map_cons, List.map_nil]
      rw [← List.append_assoc, ih]
  | between op lhs rhs _ ihr =>
      simp only [settled, pending, order, List.map_append, List.map_cons, List.map_nil]
      rw [List.append_assoc, ← List.append_assoc (rhs.settled _), ihr, List.append_assoc]
  | operand atom => simp [settled, pending]
  | name f => simp [settled, pending]
  | after op inner _ => simp [settled, pending]
  | group inner _ => simp [settled, pending]
  | call f args _ => simp [settled, pending]

theorem precedence_le_of_fitsRight {op : Operator} {t : Tree} (h : fitsRight op t = true) :
    op.precedence ≤ t.strength := by
  unfold fitsRight at h
  split at h
  · exact of_decide_eq_true h
  · exact Nat.le_of_lt (of_decide_eq_true h)

theorem precedence_le_of_fitsLeft {op : Operator} {t : Tree} (h : fitsLeft op t = true) :
    op.precedence ≤ t.strength := by
  unfold fitsLeft at h
  split at h
  · exact Nat.le_of_lt (of_decide_eq_true h)
  · exact of_decide_eq_true h

/-- What a tree leaves on the stack are operators, none of them looser than the tree. -/
theorem pending_operator {t : Tree} (ht : t.isBracketed = true) {place : Nat} {held : Held}
    (hheld : held ∈ t.pending place) :
    ∃ op fixity, held.2 = .operator op fixity ∧ t.strength ≤ op.precedence := by
  induction t generalizing place with
  | before op inner ih =>
      simp only [isBracketed, Bool.and_eq_true, decide_eq_true_eq] at ht
      simp only [pending, List.mem_append, List.mem_singleton] at hheld
      rcases hheld with hheld | rfl
      · obtain ⟨other, fixity, htoken, hle⟩ := ih ht.2 hheld
        exact ⟨other, fixity, htoken, Nat.le_trans ht.1 hle⟩
      · exact ⟨op.1, .before, rfl, Nat.le_refl _⟩
  | between op lhs rhs _ ihr =>
      simp only [isBracketed, Bool.and_eq_true] at ht
      simp only [pending, List.mem_append, List.mem_singleton] at hheld
      rcases hheld with hheld | rfl
      · obtain ⟨other, fixity, htoken, hle⟩ := ihr ht.2 hheld
        have hfits : op.1.precedence ≤ rhs.strength := precedence_le_of_fitsRight ht.1.1.2
        exact ⟨other, fixity, htoken, Nat.le_trans hfits hle⟩
      · exact ⟨op.1, .between, rfl, Nat.le_refl _⟩
  | operand atom => simp [pending] at hheld
  | name f => simp [pending] at hheld
  | after op inner _ => simp [pending] at hheld
  | group inner _ => simp [pending] at hheld
  | call f args _ => simp [pending] at hheld

theorem pending_isOpening {t : Tree} (ht : t.isBracketed = true) {place : Nat} :
    ∀ held ∈ t.pending place, held.isOpening = false := by
  intro held hheld
  obtain ⟨op, fixity, htoken, _⟩ := pending_operator ht hheld
  simp [Held.isOpening, htoken]

/-- An operator lets go of all that the tree to its left has left on the stack. -/
theorem precedes_of_mem_pending {t : Tree} (ht : t.isBracketed = true) {op : Operator}
    (hfits : fitsLeft op t = true) {place : Nat} :
    ∀ held ∈ t.pending place, Held.precedes op held = true := by
  intro held hheld
  obtain ⟨other, fixity, htoken, hle⟩ := pending_operator ht hheld
  simp only [Held.precedes, Held.strength?, htoken]
  unfold fitsLeft at hfits
  split at hfits <;> simp only [decide_eq_true_eq] at hfits <;> simp_all <;> omega

/-- What holds together tighter than an operator before its operand leaves nothing on the
stack. -/
theorem pending_eq_nil {t : Tree} (ht : 13 < t.strength) (place : Nat) :
    t.pending place = [] := by
  cases t with
  | before op inner =>
      simp [strength, Operator.precedence_of_unary? op.2] at ht
  | between op lhs rhs =>
      have := Operator.precedence_lt_of_joining op.2
      simp only [strength] at ht
      omega
  | operand _ | name _ | after _ _ | group _ | call _ _ => rfl

end Tree

/-! ## Stacks that leave a tree alone -/

/-- A stack that a tree of the given strength can be read above: its top does not give way
to an operator as strong as that, and is no function that waits for its parenthesis. -/
def Ready (level : Nat) (held : List Held) : Prop :=
  ∀ top ∈ held.head?, top.2.isFunction = false ∧
    ∀ op : JoiningOp, level ≤ op.1.precedence → Held.precedes op.1 top = false

theorem Ready.mono {low high : Nat} {held : List Held} (h : Ready low held)
    (hle : low ≤ high) : Ready high held := by
  intro top htop
  obtain ⟨hfunction, hprecedes⟩ := h top htop
  exact ⟨hfunction, fun op hop => hprecedes op (Nat.le_trans hle hop)⟩

theorem ready_nil (level : Nat) : Ready level [] := by
  intro top htop
  simp at htop

theorem ready_opening (level place : Nat) (held : List Held) :
    Ready level ((place, .punct .opening) :: held) := by
  intro top htop
  obtain rfl : (place, Token.punct .opening) = top := by simpa using htop
  exact ⟨rfl, fun op _ => rfl⟩

/-- A keyword gives way to no operator. -/
theorem ready_keyword (level place : Nat) (k : Keyword) (held : List Held) :
    Ready level ((place, .keyword k) :: held) := by
  intro top htop
  obtain rfl : (place, Token.keyword k) = top := by simpa using htop
  refine ⟨rfl, fun op _ => ?_⟩
  have hpos := op.1.precedence_pos
  simp only [Held.precedes, Held.strength?]
  split <;> simp
  omega

/-- No operator between operands is as strong as one before its operand. -/
theorem ready_before (level place : Nat) (op : LeadingOp) (held : List Held)
    (hlevel : op.1.precedence ≤ level) :
    Ready level ((place, .operator op.1 .before) :: held) := by
  intro top htop
  obtain rfl : (place, Token.operator op.1 .before) = top := by simpa using htop
  refine ⟨rfl, fun other hother => ?_⟩
  have hloose := Operator.precedence_lt_of_joining other.2
  have htight := Operator.precedence_of_unary? op.2
  omega

/-- An operator gives way to nothing in a tree that may stand to its right. -/
theorem ready_between (place : Nat) (op : JoiningOp) (held : List Held) {t : Tree}
    (hfits : Tree.fitsRight op.1 t = true) :
    Ready t.strength ((place, .operator op.1 .between) :: held) := by
  intro top htop
  obtain rfl : (place, Token.operator op.1 .between) = top := by simpa using htop
  refine ⟨rfl, fun other hother => ?_⟩
  have hsame := op.1.isRightAssociative_iff
  have hside := other.1.isRightAssociative_iff
  simp only [Held.precedes, Held.strength?]
  unfold Tree.fitsRight at hfits
  split at hfits <;> split <;> simp_all <;> omega

/-! ## Reading a tree -/

namespace Tree

/-- Reading a tree from a stack that leaves it alone finds what is settled of the tree and
adds what is pending of it to the stack. -/
def Reads (t : Tree) : Prop :=
  ∀ (place : Nat) (held : List Held) (rest : List Token), Ready t.strength held →
    opensNext rest = false →
    orderFrom place held (t.tokens ++ rest) =
      emit (t.settled place) (orderFrom (place + t.size) (t.pending place ++ held) rest)

theorem opensNext_laterTokens (args : List Tree) (rest : List Token) :
    opensNext (laterTokens args ++ .punct .closing :: rest) = false := by
  cases args <;> rfl

/-- Reading the arguments after the first, up to the closing parenthesis of the call.  What
is held above the opening parenthesis is what the argument before them has left. -/
theorem orderFrom_laterTokens {args : List Tree} (hreads : ∀ arg ∈ args, arg.Reads)
    (hargs : ∀ arg ∈ args, arg.isBracketed = true) (place start function : Nat)
    (f : FunctionRef) (inner held : List Held) (rest : List Token)
    (hinner : ∀ other ∈ inner, other.isOpening = false) :
    orderFrom place
        (inner ++ (start, .punct .opening) :: (function, .function f) :: held)
        (laterTokens args ++ .punct .closing :: rest) =
      emit (inner.map (·.1) ++ argumentOrder (place + 1) args ++ [function])
        (orderFrom (place + (laterTokens args).length + 1) held rest) := by
  induction args generalizing place inner with
  | nil =>
      simp only [laterTokens, argumentOrder, List.nil_append, List.append_nil,
        List.length_nil, Nat.add_zero]
      exact orderFrom_closing_call rest hinner start function f
  | cons arg more ih =>
      have harg : arg.isBracketed = true := hargs arg (by simp)
      simp only [laterTokens, List.cons_append, List.append_assoc]
      rw [orderFrom_comma _ hinner,
        hreads arg (by simp) _ _ _ (ready_opening _ _ _) (opensNext_laterTokens more rest),
        ih (fun other hother => hreads other (by simp [hother]))
          (fun other hother => hargs other (by simp [hother])) _ _ (pending_isOpening harg),
        emit_emit, emit_emit]
      have horder := settled_append_pending arg (place + 1)
      have hlength : place + 1 + arg.size + (laterTokens more).length + 1 =
          place + (Token.punct .comma :: (arg.tokens ++ laterTokens more)).length + 1 := by
        simp only [List.length_cons, List.length_append, size]
        omega
      rw [hlength]
      simp only [argumentOrder, ← horder, List.append_assoc]

/-- Reading a call: its parentheses shield the arguments from what is held around it. -/
theorem reads_call (f : FunctionRef) {args : List Tree} (hreads : ∀ arg ∈ args, arg.Reads)
    (hargs : ∀ arg ∈ args, arg.isBracketed = true) : (call f args).Reads := by
  intro place held rest _ _
  simp only [tokens, settled, pending, order, List.cons_append, List.append_assoc,
    List.nil_append]
  rw [orderFrom_called]
  cases args with
  | nil =>
      have hclosing := @orderFrom_closing_call (place + 2) rest [] held (by simp)
        (place + 1) place f
      simpa [argumentTokens, argumentOrder] using hclosing
  | cons arg more =>
      have harg : arg.isBracketed = true := hargs arg (by simp)
      simp only [argumentTokens, argumentOrder, List.append_assoc]
      rw [hreads arg (by simp) _ _ _ (ready_opening _ _ _) (opensNext_laterTokens more rest),
        orderFrom_laterTokens (fun other hother => hreads other (by simp [hother]))
          (fun other hother => hargs other (by simp [hother])) _ _ _ _ _ _ _
          (pending_isOpening harg),
        emit_emit]
      have hlength : place + 2 + arg.size + (laterTokens more).length + 1 =
          place + (call f (arg :: more)).size := by
        rw [size_call, argumentTokens, List.length_append, size]
        omega
      rw [hlength, ← settled_append_pending arg]
      simp only [List.append_assoc]

/-- Reading an operator between two trees.  It lets go of all that the left tree has left
and of nothing below it, so the left tree is settled whole. -/
theorem reads_between {op : JoiningOp} {lhs rhs : Tree} (hl : lhs.Reads) (hr : rhs.Reads)
    (h : (between op lhs rhs).isBracketed = true) : (between op lhs rhs).Reads := by
  intro place held rest hready hrest
  simp only [isBracketed, Bool.and_eq_true] at h
  obtain ⟨⟨⟨hleft, hright⟩, hlhs⟩, _⟩ := h
  have hquiet : ∀ top ∈ held.head?, Held.precedes op.1 top = false :=
    fun top htop => (hready top htop).2 op (Nat.le_refl _)
  have htake : (lhs.pending place ++ held).takeWhile (Held.precedes op.1) =
      lhs.pending place := by
    rw [List.takeWhile_append_of_pos (precedes_of_mem_pending hlhs hleft)]
    cases held with
    | nil => simp
    | cons top below => simp [hquiet top (by simp)]
  have hdrop : (lhs.pending place ++ held).dropWhile (Held.precedes op.1) = held := by
    rw [List.dropWhile_append_of_pos (precedes_of_mem_pending hlhs hleft)]
    cases held with
    | nil => simp
    | cons top below => simp [hquiet top (by simp)]
  simp only [tokens, List.append_assoc, List.cons_append]
  rw [hl _ _ _ (hready.mono (precedence_le_of_fitsLeft hleft)) rfl, orderFrom_between, htake,
    hdrop, hr _ _ _ (ready_between _ _ _ hright) hrest, emit_emit, emit_emit,
    settled_append_pending]
  simp only [settled, pending, size_between, List.append_assoc, List.singleton_append]
  rw [show place + lhs.size + 1 + rhs.size = place + (lhs.size + rhs.size + 1) by omega]

/-- Every tree with its parentheses in place is read as it was meant. -/
theorem reads (t : Tree) (h : t.isBracketed = true) : t.Reads := by
  induction t with
  | operand atom =>
      intro place held rest _ _
      exact orderFrom_operand place held rest atom.2
  | name f =>
      intro place held rest _ hrest
      exact orderFrom_name place held rest f hrest
  | before op inner ih =>
      simp only [isBracketed, Bool.and_eq_true, decide_eq_true_eq] at h
      intro place held rest _ hrest
      have hinner := ih h.2 (place + 1) ((place, .operator op.1 .before) :: held) rest
        (ready_before _ _ _ _ h.1) hrest
      simpa [tokens, settled, pending, orderFrom, Nat.add_assoc, Nat.add_comm 1] using hinner
  | after op inner ih =>
      simp only [isBracketed, Bool.and_eq_true, decide_eq_true_eq] at h
      intro place held rest hready _
      have htight : 13 < inner.strength := by
        have hstep : op.1.precedence = 13 := by
          rcases op.2 with hop | hop <;> simp [hop, Operator.precedence]
        omega
      have hsettled := settled_append_pending inner place
      rw [pending_eq_nil htight, List.map_nil, List.append_nil] at hsettled
      simp only [tokens, List.append_assoc, List.singleton_append]
      rw [ih h.2 place held _ (hready.mono h.1) rfl, orderFrom_after, emit_emit,
        pending_eq_nil htight, hsettled]
      simp only [settled, pending, order, size_after, List.nil_append]
      rw [Nat.add_assoc]
  | between op lhs rhs ihl ihr =>
      have hparts := h
      simp only [isBracketed, Bool.and_eq_true] at hparts
      exact reads_between (ihl hparts.1.2) (ihr hparts.2) h
  | group inner ih =>
      simp only [isBracketed] at h
      intro place held rest hready _
      simp only [tokens, List.cons_append, List.append_assoc]
      rw [orderFrom, ih h _ _ _ (ready_opening _ _ _) rfl,
        orderFrom_closing_group _ (pending_isOpening h) _ fun top htop => (hready top htop).1,
        emit_emit, settled_append_pending]
      simp only [settled, pending, order, size_group, List.nil_append]
      rw [show place + 1 + inner.size + 1 = place + (inner.size + 2) by omega]
  | call f args ih =>
      simp only [isBracketed] at h
      have hargs := (areBracketed_iff args).mp h
      exact reads_call f (fun arg harg => ih arg harg (hargs arg harg)) hargs

/-- At the end only operators and keywords are held, and they are let go in order. -/
theorem release_eq {held : List Held} (h : ∀ other ∈ held, other.isOpening = false) :
    release held = .ok (held.map (·.1)) := by
  have hnone : held.any Held.isOpening = false := by
    simpa using h
  simp [release, hnone]

end Tree

/-! ## Whole expressions -/

namespace Sentence

/-- On a whole expression with its parentheses in place, the order of evaluation is found
and is the post-order of the expression. -/
theorem postorder_tokens (s : Sentence) (h : s.body.isBracketed = true) :
    postorder s.tokens = .ok s.order := by
  obtain ⟨keyword, body⟩ := s
  have hread := Tree.reads body h
  have hopening : ∀ place, ∀ other ∈ body.pending place, other.isOpening = false :=
    fun place => Tree.pending_isOpening h
  cases keyword with
  | none =>
      have hwhole := hread 0 [] [] (ready_nil _) rfl
      rw [List.append_nil, List.append_nil] at hwhole
      simp only [postorder, tokens, order]
      rw [hwhole, orderFrom, Tree.release_eq (hopening 0)]
      simp only [emit, Tree.settled_append_pending]
  | some k =>
      have hwhole := hread 1 [(0, .keyword k)] [] (ready_keyword _ _ _ _) rfl
      rw [List.append_nil] at hwhole
      have hheld : ∀ other ∈ body.pending 1 ++ [(0, .keyword k)],
          Held.isOpening other = false := by
        intro other hother
        rcases List.mem_append.mp hother with hother | hother
        · exact hopening 1 other hother
        · obtain rfl := List.mem_singleton.mp hother
          rfl
      simp only [postorder, tokens, order]
      rw [orderFrom, hwhole, orderFrom, Tree.release_eq hheld]
      simp [emit, ← Tree.settled_append_pending]

/-- `temp x = -n++ * (a - MIN(b, !c)) + TURNS`, which has an operator in every position, a
group, a call and a function that is not called. -/
def specimen : Sentence :=
  let var (name : String) : Tree := .operand ⟨.ident name, rfl⟩
  let least : Tree := .call ⟨"MIN", .builtin .min, 2⟩ [var "b", .before ⟨.not, rfl⟩ (var "c")]
  let factor : Tree := .before ⟨.negate, rfl⟩ (.after ⟨.increment, .inl rfl⟩ (var "n"))
  let product : Tree :=
    .between ⟨.multiply, rfl⟩ factor (.group (.between ⟨.subtract, rfl⟩ (var "a") least))
  { keyword := some .temp
    body := .between ⟨.assign, rfl⟩ (var "x")
      (.between ⟨.add, rfl⟩ product (.name ⟨"TURNS", .builtin .turns, 0⟩)) }

/-- The order of the specimen: the negation waits for the step sign, the product for the
group, the assignment for all of its right side, and the keyword for everything. -/
theorem postorder_specimen :
    specimen.body.isBracketed = true ∧
      postorder specimen.tokens =
        .ok [1, 4, 5, 3, 8, 12, 15, 14, 10, 9, 6, 19, 18, 2, 0] :=
  ⟨by decide, postorder_tokens specimen (by decide)⟩

end Sentence

end Skein
