import Skein.Proofs.Expr.Writes

set_option autoImplicit false

/-!
# Expr: what observers are told

An observer of a global hears of its changes only: a write that leaves the value the same is
passed over, though what is stored then may be another zero or have other list origins.  So one
who keeps the last value heard keeps one that is the same as the stored one, since being the
same is transitive.  Where not-a-number is stored every write is heard, and there the two are
even equal.

Who writes under which name, and what else is done to the store between, makes no difference.
-/

namespace Skein

/-! ## Values that are the same -/

namespace Value

open Float.Model (UnpackedFloat)

/-- What compares as equal is one number, or both are zeros. -/
theorem eq_or_zero_of_compare {a b : UnpackedFloat} (h : a.compare b = some .eq) :
    a = b ∨ ∃ s t, a = .zero s ∧ b = .zero t := by
  cases a with
  | notANumber => cases h
  | infinity s =>
      cases b with
      | infinity t => cases s <;> cases t <;> first | exact .inl rfl | cases h
      | notANumber | zero _ | finite _ _ _ _ => cases s <;> cases h
  | zero s =>
      cases b with
      | zero t => exact .inr ⟨s, t, rfl, rfl⟩
      | notANumber => cases h
      | infinity t | finite t _ _ _ => cases t <;> cases h
  | finite s m e hm =>
      cases b with
      | finite t n f hn =>
          -- Numbers of one sign are equal if their exponents are and their digits are.
          have hparts : s = t ∧ (compare e f).then (compare m n) = .eq := by
            cases s <;> cases t <;> first
              | exact ⟨rfl, Option.some.inj h⟩
              | exact ⟨rfl, Ordering.swap_eq_eq.mp (Option.some.inj h)⟩
              | cases h
          obtain ⟨rfl, hthen⟩ := hparts
          obtain ⟨hexponent, hdigits⟩ := Ordering.then_eq_eq.mp hthen
          cases Std.LawfulEqOrd.eq_of_compare hexponent
          cases Std.LawfulEqOrd.eq_of_compare hdigits
          exact .inl rfl
      | notANumber => cases s <;> cases h
      | infinity t => cases t <;> cases h
      | zero _ => cases s <;> cases h

theorem beq_trans_float {x y z : Float} (hxy : (x == y) = true) (hyz : (y == z) = true) :
    (x == z) = true := by
  have hbeq (u v : Float) :
      (u == v) = (u.toModel.unpack.compare v.toModel.unpack == some .eq) := rfl
  rw [hbeq, beq_iff_eq] at *
  rcases eq_or_zero_of_compare hxy with heq | ⟨s, t, hx, hy⟩
  · rw [heq]
    exact hyz
  · rcases eq_or_zero_of_compare hyz with heq | ⟨_, u, _, hz⟩
    · rw [← heq]
      exact hxy
    · rw [hx, hz]
      rfl

theorem same_trans {u v w : Value} (huv : u.same v = true) (hvw : v.same w = true) :
    u.same w = true := by
  unfold same at huv
  split at huv
  · next a b =>
      cases of_decide_eq_true huv
      exact hvw
  · next a b =>
      cases of_decide_eq_true huv
      exact hvw
  · next x y =>
      cases w with
      | float z => exact beq_trans_float huv hvw
      | bool _ | int _ | string _ | list _ => cases hvw
  · next a b =>
      cases of_decide_eq_true huv
      exact hvw
  · next l m =>
      cases w with
      | list n =>
          have hlm : l.items = m.items := of_decide_eq_true huv
          have hmn : m.items = n.items := of_decide_eq_true hvw
          exact decide_eq_true (hlm.trans hmn)
      | bool _ | int _ | float _ | string _ => cases hvw
  · cases huv

/-- The same, or not told apart at all: not-a-number is the latter only. -/
def Alike (v w : Value) : Prop := v = w ∨ v.same w = true

theorem Alike.trans_same {u v w : Value} (huv : Alike u v) (hvw : v.same w = true) :
    Alike u w := by
  rcases huv with rfl | huv
  · exact .inr hvw
  · exact .inr (same_trans huv hvw)

end Value

namespace Store

/-! ## What is done to a store -/

/-- What is done to a store, its observers and list definitions included.  Scopes are put in
place of the ones there are when a choice is taken up again. -/
inductive Act where
  | apply (operation : Operation)
  | restore (scopes : List Scope)
  | defineList (name : String) (entries : List (String × Int64))
  | observe (name : String) (id : ObserverId)
  | unobserve (name : String) (id : ObserverId)
  | unobserveEverywhere (id : ObserverId)
  | unobserveAll (name : String)

/-- The store after an act.  An act that fails changes nothing. -/
def perform (s : Store) : Act → Store
  | .apply operation => s.after operation
  | .restore scopes => s.withScopes scopes
  | .defineList name entries =>
    match s.defineList name entries with
    | .ok (_, t) => t
    | .error _ => s
  | .observe name id => s.observe name id
  | .unobserve name id => s.unobserve name id
  | .unobserveEverywhere id => s.unobserveEverywhere id
  | .unobserveAll name => s.unobserveAll name

/-- The store after some acts. -/
def performAll (s : Store) (acts : List Act) : Store := acts.foldl perform s

/-- The act neither defines the global anew nor takes the observer away from it, and it does not
have the observer watch another one. -/
def Act.Spares (g : String) (o : ObserverId) : Act → Prop
  | .apply (.defineGlobal name _) => name ≠ g
  | .observe name id => id = o → name = g
  | .unobserve name id => name = g → id ≠ o
  | .unobserveEverywhere id => id ≠ o
  | .unobserveAll name => name ≠ g
  | _ => True

/-- The act is a write that succeeds, of a name that stands for the global, and no temporary
takes it. -/
def WritesGlobal (s : Store) (act : Act) (g : String) (value : Value) : Prop :=
  ∃ name, act = .apply (.set name value) ∧ s.canonical name = g ∧ s.temporary? g = none ∧
    ∃ t, s.set name value = .ok t

/-- The observers of a global. -/
def watchers (s : Store) (name : String) : List ObserverId := (s.observers.get? name).getD []

/-- The observer watches the global and nothing else. -/
def Watches (s : Store) (o : ObserverId) (g : String) : Prop :=
  ∀ name, o ∈ s.watchers name ↔ name = g

/-- The last value that the observer was told, or else the one it started with. -/
def lastHeard (o : ObserverId) (start : Option Value) (told : List Notice) : Option Value :=
  (told.filter (·.observer = o)).foldl (fun _ notice => some notice.value) start

/-! ## What one act does -/

/-- What an act makes of a store: it writes a global, it defines one, or it leaves the globals and
the notices as they are. -/
inductive Performs (s : Store) : Act → Store → Prop where
  | wrote {act : Act} (g : String) (value : Value) :
      s.WritesGlobal act g value → Performs s act (s.writeGlobal g value)
  | defined (name : String) (value : Value) :
      Performs s (.apply (.defineGlobal name value)) (s.defineGlobal name value)
  | rest {act : Act} {t : Store} : (∀ g value, ¬s.WritesGlobal act g value) →
      t.globals = s.globals → t.notices = s.notices →
      (∀ o g, act.Spares g o → s.Watches o g → t.Watches o g) → Performs s act t

theorem Watches.congr {s t : Store} {o : ObserverId} {g : String} (h : s.Watches o g)
    (hobservers : t.observers = s.observers) : t.Watches o g := by
  intro name
  rw [watchers, hobservers]
  exact h name

theorem not_writesGlobal {s : Store} {act : Act}
    (hact : ∀ name value, act ≠ .apply (.set name value)) (g : String) (value : Value) :
    ¬s.WritesGlobal act g value := by
  rintro ⟨name, heq, _⟩
  exact hact name value heq

/-- Whatever an act does to scopes, constants and list definitions leaves the rest as it is. -/
theorem Performs.of_frame {s t : Store} {act : Act}
    (hact : ∀ name value, act ≠ .apply (.set name value))
    (ht : t = { s with
      scope := t.scope, enclosing := t.enclosing
      constants := t.constants, registry := t.registry }) :
    s.Performs act t := by
  have hglobals : t.globals = s.globals := by rw [ht]
  have hnotices : t.notices = s.notices := by rw [ht]
  have hobservers : t.observers = s.observers := by rw [ht]
  exact .rest (not_writesGlobal hact) hglobals hnotices fun o g _ hwatch => hwatch.congr hobservers

theorem performs_set (s : Store) (name : String) (value : Value) :
    s.Performs (.apply (.set name value)) (s.perform (.apply (.set name value))) := by
  cases hset : s.set name value with
  | error fault =>
      have hperform : s.perform (.apply (.set name value)) = s := by
        simp only [perform, after, hset]
      rw [hperform]
      refine .rest ?_ rfl rfl fun _ _ _ hwatch => hwatch
      rintro g other ⟨_, heq, _, _, t, ht⟩
      cases heq
      rw [hset] at ht
      cases ht
  | ok t =>
      have hperform : s.perform (.apply (.set name value)) = t := by
        simp only [perform, after, hset]
      rw [hperform]
      cases (lands_of_set hset).2 with
      | temporary hhas ht _ _ =>
          have hglobals : t.globals = s.globals := by rw [ht]
          have hnotices : t.notices = s.notices := by rw [ht]
          have hobservers : t.observers = s.observers := by rw [ht]
          refine .rest ?_ hglobals hnotices fun _ _ _ hwatch => hwatch.congr hobservers
          rintro g other ⟨_, heq, hname, hnone, _⟩
          cases heq
          rw [hname] at hhas
          exact hhas hnone
      | global hnone => exact .wrote _ _ ⟨name, rfl, rfl, hnone, _, hset⟩

theorem watchers_observe (s : Store) (name other : String) (id : ObserverId) :
    (s.observe name id).watchers other =
      if name = other then s.watchers other ++ [id] else s.watchers other := by
  simp only [watchers, observe, Table.get?_insert]
  by_cases hname : name = other
  · simp [hname]
  · simp [hname]

theorem watchers_unobserve (s : Store) (name other : String) (id : ObserverId) :
    (s.unobserve name id).watchers other =
      if name = other then (s.watchers other).filter (· ≠ id) else s.watchers other := by
  unfold unobserve
  split
  · next hnone =>
      by_cases hname : name = other
      · subst hname
        simp [watchers, hnone]
      · simp [hname]
  · next ids hids =>
      by_cases hname : name = other
      · subst hname
        simp [watchers, hids]
      · simp [watchers, hname]

theorem watchers_unobserveEverywhere (s : Store) (other : String) (id : ObserverId) :
    (s.unobserveEverywhere id).watchers other = (s.watchers other).filter (· ≠ id) := by
  simp only [watchers, unobserveEverywhere, Table.get?_mapValues]
  cases s.observers.get? other with
  | none => rfl
  | some ids => rfl

theorem watchers_unobserveAll (s : Store) (name other : String) :
    (s.unobserveAll name).watchers other = if name = other then [] else s.watchers other := by
  simp only [watchers, unobserveAll, Table.get?_erase]
  by_cases hname : name = other
  · simp [hname]
  · simp [hname]

theorem watches_observe {s : Store} {o : ObserverId} {g : String}
    (h : ∀ name, o ∈ s.watchers name → name = g) : (s.observe g o).Watches o g := by
  intro name
  rw [watchers_observe]
  by_cases hname : g = name
  · simp [hname]
  · simp only [hname, if_false]
    exact ⟨h name, fun heq => absurd heq.symm hname⟩

theorem Watches.observe {s : Store} {o id : ObserverId} {g name : String} (h : s.Watches o g)
    (hid : id = o → name = g) : (s.observe name id).Watches o g := by
  intro other
  rw [watchers_observe]
  split
  · next hname =>
      subst hname
      rw [List.mem_append, List.mem_singleton, h name]
      exact ⟨fun hmem => hmem.elim (fun heq => heq) (fun heq => hid heq.symm), .inl⟩
  · exact h other

theorem Watches.unobserve {s : Store} {o id : ObserverId} {g name : String} (h : s.Watches o g)
    (hid : name = g → id ≠ o) : (s.unobserve name id).Watches o g := by
  intro other
  rw [watchers_unobserve]
  split
  · next hname =>
      subst hname
      rw [List.mem_filter, h name, decide_eq_true_iff]
      exact ⟨And.left, fun heq => ⟨heq, (hid heq).symm⟩⟩
  · exact h other

theorem Watches.unobserveEverywhere {s : Store} {o id : ObserverId} {g : String}
    (h : s.Watches o g) (hid : id ≠ o) : (s.unobserveEverywhere id).Watches o g := by
  intro other
  rw [watchers_unobserveEverywhere, List.mem_filter, h other, decide_eq_true_iff]
  exact ⟨And.left, fun heq => ⟨heq, hid.symm⟩⟩

theorem Watches.unobserveAll {s : Store} {o : ObserverId} {g name : String} (h : s.Watches o g)
    (hname : name ≠ g) : (s.unobserveAll name).Watches o g := by
  intro other
  rw [watchers_unobserveAll]
  split
  · next heq =>
      subst heq
      simp [hname]
  · exact h other

theorem performs_perform (s : Store) (act : Act) : s.Performs act (s.perform act) := by
  cases act with
  | apply operation =>
      cases operation with
      | set name value => exact performs_set s name value
      | defineGlobal name value => exact .defined name value
      | popScope =>
          refine .of_frame (by simp) ?_
          simp only [perform, after, popScope, popScope?]
          cases s.enclosing.pop? with
          | none => rfl
          | some popped => rfl
      | pushScope | resetScope | declareTemporary _ _ | addAlias _ _ | defineConstant _ _ =>
          exact .of_frame (by simp) rfl
  | restore scopes =>
      refine .of_frame (by simp) ?_
      cases scopes with
      | nil => rfl
      | cons scope outer => rfl
  | defineList name entries =>
      refine .of_frame (by simp) ?_
      simp only [perform, defineList]
      cases s.registry.define name entries with
      | error fault => rfl
      | ok defined => rfl
  | observe name id =>
      exact .rest (not_writesGlobal (by simp)) rfl rfl fun o g hact hwatch => hwatch.observe hact
  | unobserve name id =>
      have hglobals : (s.unobserve name id).globals = s.globals := by
        unfold Store.unobserve
        split <;> rfl
      have hnotices : (s.unobserve name id).notices = s.notices := by
        unfold Store.unobserve
        split <;> rfl
      exact .rest (not_writesGlobal (by simp)) hglobals hnotices
        fun o g hact hwatch => hwatch.unobserve hact
  | unobserveEverywhere id =>
      exact .rest (not_writesGlobal (by simp)) rfl rfl
        fun o g hact hwatch => hwatch.unobserveEverywhere hact
  | unobserveAll name =>
      exact .rest (not_writesGlobal (by simp)) rfl rfl
        fun o g hact hwatch => hwatch.unobserveAll hact

/-! ## What observers are told of one act -/

theorem WritesGlobal.unique {s : Store} {act : Act} {g g' : String} {value value' : Value}
    (h : s.WritesGlobal act g value) (h' : s.WritesGlobal act g' value') :
    g = g' ∧ value = value' := by
  obtain ⟨name, rfl, rfl, _⟩ := h
  obtain ⟨_, heq, rfl, _⟩ := h'
  cases heq
  exact ⟨rfl, rfl⟩

theorem changes_eq_false_iff {s : Store} {g : String} {value : Value} :
    s.changes g value = false ↔ ∃ old, s.globals.get? g = some old ∧ old.same value = true := by
  unfold changes
  split
  · next old hold => simp [hold]
  · next hnone => simp [hnone]

/-- The act writes a global and changes it, and the notice says so to one who watches it. -/
def Tells (s : Store) (act : Act) (notice : Notice) : Prop :=
  notice.observer ∈ s.watchers notice.name ∧ s.WritesGlobal act notice.name notice.value ∧
    s.changes notice.name notice.value = true

theorem not_tells {s : Store} {act : Act} (hact : ∀ g value, ¬s.WritesGlobal act g value)
    (notice : Notice) : notice ∈ ([] : List Notice) ↔ s.Tells act notice :=
  iff_of_false List.not_mem_nil fun htells => hact _ _ htells.2.1

/-- Those are told, and they only, who watch a global that is written and changes. -/
theorem Performs.exists_told {s t : Store} {act : Act} (h : s.Performs act t) :
    ∃ told, t.notices = s.notices ++ told ∧ ∀ notice, notice ∈ told ↔ s.Tells act notice := by
  cases h with
  | wrote g value hwrites =>
      by_cases hchanges : s.changes g value = true
      · refine ⟨s.noticesOf g value, if_pos hchanges, fun notice => ⟨fun hmem => ?_, ?_⟩⟩
        · obtain ⟨id, hid, rfl⟩ := List.mem_map.mp hmem
          exact ⟨hid, hwrites, hchanges⟩
        · rintro ⟨hwatch, hnotice, _⟩
          obtain ⟨rfl, rfl⟩ := hwrites.unique hnotice
          exact List.mem_map.mpr ⟨notice.observer, hwatch, rfl⟩
      · refine ⟨[], (if_neg hchanges).trans (List.append_nil _).symm, fun notice => ?_⟩
        refine iff_of_false List.not_mem_nil ?_
        rintro ⟨_, hnotice, hchanged⟩
        obtain ⟨rfl, rfl⟩ := hwrites.unique hnotice
        exact absurd hchanged hchanges
  | defined name value =>
      exact ⟨[], (List.append_nil _).symm, not_tells (not_writesGlobal (by simp))⟩
  | rest hact _ hnotices _ =>
      rw [hnotices]
      exact ⟨[], (List.append_nil _).symm, not_tells hact⟩

/-! ## The last value heard -/

theorem lastHeard_append (o : ObserverId) (start : Option Value) (told later : List Notice) :
    lastHeard o start (told ++ later) = lastHeard o (lastHeard o start told) later := by
  simp only [lastHeard, List.filter_append, List.foldl_append]

theorem lastHeard_of_not_told {o : ObserverId} {told : List Notice}
    (h : ∀ notice ∈ told, notice.observer ≠ o) (start : Option Value) :
    lastHeard o start told = start := by
  have hnone : told.filter (·.observer = o) = [] := by simpa using h
  rw [lastHeard, hnone, List.foldl_nil]

theorem foldl_of_value {value : Value} {told : List Notice} (htold : told ≠ [])
    (h : ∀ notice ∈ told, notice.value = value) (start : Option Value) :
    told.foldl (fun _ notice => some notice.value) start = some value := by
  induction told generalizing start with
  | nil => exact absurd rfl htold
  | cons notice later ih =>
      rw [List.foldl_cons, h notice List.mem_cons_self]
      by_cases hlater : later = []
      · rw [hlater, List.foldl_nil]
      · exact ih hlater (fun other hother => h other (List.mem_cons_of_mem _ hother)) _

theorem lastHeard_of_told {o : ObserverId} {told : List Notice} {notice : Notice}
    (hmem : notice ∈ told) (ho : notice.observer = o)
    (h : ∀ other ∈ told, other.observer = o → other.value = notice.value)
    (start : Option Value) : lastHeard o start told = some notice.value := by
  have hfiltered : notice ∈ told.filter (·.observer = o) := by simp [hmem, ho]
  refine foldl_of_value (List.ne_nil_of_mem hfiltered) (fun other hother => ?_) start
  obtain ⟨hother, hobserver⟩ := List.mem_filter.mp hother
  exact h other hother (of_decide_eq_true hobserver)

section Told

variable {s : Store} {o : ObserverId} {g : String} {act : Act} {told : List Notice}
  (hwatch : s.Watches o g) (htold : ∀ notice, notice ∈ told ↔ s.Tells act notice)
include hwatch htold

/-- Of an act that does not change the global, its observer is not told. -/
theorem Watches.lastHeard_of_quiet
    (hquiet : ∀ value, s.WritesGlobal act g value → s.changes g value = false)
    (heard : Option Value) : lastHeard o heard told = heard := by
  refine lastHeard_of_not_told (fun notice hmem ho => ?_) heard
  obtain ⟨hobserver, hwrites, hchanges⟩ := (htold notice).mp hmem
  rw [ho, hwatch] at hobserver
  rw [hobserver] at hwrites hchanges
  rw [hquiet _ hwrites] at hchanges
  cases hchanges

/-- Of a write that changes the global, its observer is told the value written. -/
theorem Watches.lastHeard_of_change {value : Value} (hwrites : s.WritesGlobal act g value)
    (hchanges : s.changes g value = true) (heard : Option Value) :
    lastHeard o heard told = some value := by
  let notice : Notice := { observer := o, name := g, value := value }
  have hmem : notice ∈ told := (htold notice).mpr ⟨(hwatch _).mpr rfl, hwrites, hchanges⟩
  refine lastHeard_of_told hmem rfl (fun other hother _ => ?_) heard
  exact (((htold other).mp hother).2.1.unique hwrites).2

/-- What the observer heard last is like what is stored, after an act if it was before. -/
theorem Watches.alike_perform {t : Store} (hact : act.Spares g o) (hperforms : s.Performs act t)
    {heard : Option Value} (h : Option.Rel Value.Alike heard (s.globals.get? g)) :
    Option.Rel Value.Alike (lastHeard o heard told) (t.globals.get? g) := by
  cases hperforms with
  | wrote written value hwrites =>
      have hget : (s.writeGlobal written value).globals.get? g =
          if written = g then some value else s.globals.get? g := Table.get?_insert ..
      rw [hget]
      by_cases hg : written = g
      · subst hg
        rw [if_pos rfl]
        cases hchanges : s.changes written value with
        | true =>
            rw [hwatch.lastHeard_of_change htold hwrites hchanges]
            exact .some (.inl rfl)
        | false =>
            rw [hwatch.lastHeard_of_quiet htold fun other hother => ?_]
            · obtain ⟨old, hold, hsame⟩ := changes_eq_false_iff.mp hchanges
              rw [hold] at h
              cases h with
              | some halike => exact .some (halike.trans_same hsame)
            · obtain ⟨-, rfl⟩ := hwrites.unique hother
              exact hchanges
      · rw [if_neg hg, hwatch.lastHeard_of_quiet htold fun other hother => ?_]
        · exact h
        · exact absurd (hwrites.unique hother).1 hg
  | defined name value =>
      have hget : (s.defineGlobal name value).globals.get? g =
          if name = g then some value else s.globals.get? g := Table.get?_insert ..
      rw [hget, if_neg hact, hwatch.lastHeard_of_quiet htold fun other hother => ?_]
      · exact h
      · exact absurd hother (not_writesGlobal (by simp) g other)
  | rest hnot hglobals _ _ =>
      rw [hglobals, hwatch.lastHeard_of_quiet htold fun other hother => ?_]
      · exact h
      · exact absurd hother (hnot g other)

end Told

theorem Watches.of_performs {s t : Store} {o : ObserverId} {g : String} {act : Act}
    (hwatch : s.Watches o g) (hact : act.Spares g o) (hperforms : s.Performs act t) :
    t.Watches o g := by
  cases hperforms with
  | wrote _ _ _ => exact hwatch.congr rfl
  | defined _ _ => exact hwatch.congr rfl
  | rest _ _ _ hkeeps => exact hkeeps o g hact hwatch

/-- What the observer heard last stays like what is stored, whatever is done. -/
theorem Watches.alike_performAll {s : Store} {o : ObserverId} {g : String} (acts : List Act)
    (hwatch : s.Watches o g) (hacts : ∀ act ∈ acts, act.Spares g o) {heard : Option Value}
    (h : Option.Rel Value.Alike heard (s.globals.get? g)) :
    (s.performAll acts).Watches o g ∧ ∃ told, (s.performAll acts).notices = s.notices ++ told ∧
      (∀ notice ∈ told, notice.observer = o → notice.name = g) ∧
      Option.Rel Value.Alike (lastHeard o heard told) ((s.performAll acts).globals.get? g) := by
  induction acts generalizing s heard with
  | nil => exact ⟨hwatch, [], (List.append_nil _).symm, by simp, h⟩
  | cons act acts ih =>
      have hact := hacts act List.mem_cons_self
      have hperforms := performs_perform s act
      obtain ⟨first, hfirst, htold⟩ := hperforms.exists_told
      have hheard := hwatch.alike_perform htold hact hperforms h
      obtain ⟨hafter, later, hlater, hnames, hlast⟩ := ih (hwatch.of_performs hact hperforms)
        (fun other hother => hacts other (List.mem_cons_of_mem _ hother)) hheard
      refine ⟨hafter, first ++ later, ?_, fun notice hmem ho => ?_, ?_⟩
      · rw [performAll, List.foldl_cons, ← performAll, hlater, hfirst, List.append_assoc]
      · rcases List.mem_append.mp hmem with hmem | hmem
        · rw [← hwatch, ← ho]
          exact ((htold notice).mp hmem).1
        · exact hnames notice hmem ho
      · rw [lastHeard_append]
        exact hlast

/-- An observer that watches one global, from when it is made to, whatever is done next short of
defining the global anew or taking the observer away: what it heard last, or at first what was
stored then, is like what is stored.  It is told of the global under its own name only.  Of the
next act it is told exactly if that is a write which succeeds, reaches the global and no
temporary, and does not find the same value there; then it is told the value written. -/
theorem lastHeard_of_observe {s t : Store} {o : ObserverId} {g : String} {acts : List Act}
    (hwatch : ∀ name, o ∈ s.watchers name → name = g)
    (hacts : ∀ act ∈ acts, act.Spares g o) (ht : (s.observe g o).performAll acts = t) :
    (∃ told, t.notices = s.notices ++ told ∧
      (∀ notice ∈ told, notice.observer = o → notice.name = g) ∧
      Option.Rel Value.Alike (lastHeard o (s.globals.get? g) told) (t.globals.get? g)) ∧
    ∀ act, ∃ told, (t.perform act).notices = t.notices ++ told ∧
      ∀ notice, notice.observer = o → (notice ∈ told ↔
        notice.name = g ∧ t.WritesGlobal act g notice.value ∧
          ¬∃ old, t.globals.get? g = some old ∧ old.same notice.value = true) := by
  have hstart : Option.Rel Value.Alike (s.globals.get? g) ((s.observe g o).globals.get? g) := by
    change Option.Rel Value.Alike (s.globals.get? g) (s.globals.get? g)
    cases s.globals.get? g with
    | none => exact .none
    | some value => exact .some (.inl rfl)
  obtain ⟨hafter, hheard⟩ := (watches_observe hwatch).alike_performAll acts hacts hstart
  rw [ht] at hafter hheard
  refine ⟨hheard, fun act => ?_⟩
  obtain ⟨told, hnotices, htold⟩ := (performs_perform t act).exists_told
  refine ⟨told, hnotices, fun notice ho => ?_⟩
  rw [htold, Tells, ho, hafter, ← changes_eq_false_iff, Bool.not_eq_false]
  constructor
  · rintro ⟨rfl, hwrites, hchanges⟩
    exact ⟨rfl, hwrites, hchanges⟩
  · rintro ⟨rfl, hwrites, hchanges⟩
    exact ⟨rfl, hwrites, hchanges⟩

/-- A global with one watcher. -/
def purse : Store where
  globals := ⟨[("gold", .int 5)]⟩

/-- A purchase in a function that knows the global under another name, and then has a temporary
of its own of that name. -/
def purchase : List Act :=
  [.apply .pushScope, .apply (.addAlias "coins" "gold"), .observe "silver" ⟨2⟩,
    .apply (.set "coins" (.int 3)), .apply (.declareTemporary "gold" (.int 0)),
    .apply (.set "gold" (.int 1))]

/-- The purse after the purchase, with an observer of the gold. -/
def spent : Store := (purse.observe "gold" ⟨1⟩).performAll purchase

/-- The observer hears of the write under the other name, and what it heard is stored.  It does
not hear of a write to the temporary. -/
theorem lastHeard_of_observe_purse :
    spent.notices = [⟨⟨1⟩, "gold", .int 3⟩] ∧
      Option.Rel Value.Alike (some (.int 3)) (spent.globals.get? "gold") ∧
      ∃ told, (spent.perform (.apply (.set "gold" (.int 1)))).notices = spent.notices ++ told ∧
        ⟨⟨1⟩, "gold", .int 1⟩ ∉ told := by
  have hwatch (name : String) (hmem : (⟨1⟩ : ObserverId) ∈ purse.watchers name) :
      name = "gold" := by
    cases hmem
  have hacts : ∀ act ∈ purchase, act.Spares "gold" ⟨1⟩ := by
    simp [purchase, Act.Spares]
  obtain ⟨⟨told, htold, _, hheard⟩, hnext⟩ := lastHeard_of_observe hwatch hacts (t := spent) rfl
  have hnotices : spent.notices = [⟨⟨1⟩, "gold", .int 3⟩] := by decide
  rw [hnotices] at htold
  subst htold
  obtain ⟨later, hlater, hmem⟩ := hnext (.apply (.set "gold" (.int 1)))
  refine ⟨hnotices, hheard, later, hlater, fun hin => ?_⟩
  obtain ⟨_, ⟨_, _, _, hnone, _⟩, _⟩ := (hmem _ rfl).mp hin
  exact absurd hnone (by decide)

end Store

end Skein
