import Mathlib.Data.List.DropRight
import Mathlib.Data.List.TakeWhile
import Mathlib.Tactic.Ring

/-! # Expressions with precedence

Operands are literals, expressions in brackets, and operands with a sign before them. Operators stand between operands on
levels: those of a lower level bind tighter, and on one level they are evaluated from the left. Blanks may stand before every symbol.

A parser for a level takes an operand of the level below and goes on while it sees an operator of its own. `level_parses` says that it
parses what the grammar derives, and that its value is the one of the expression. -/

namespace ZenovOS.Expressions

/-- The symbols of a language, and what they mean. -/
structure Language (α υ : Type) where
  blank : α
  opening : α
  closing : α
  Literal : List α → υ → Prop
  Sign : Type
  sign : Sign → α
  admitsSign : Sign → Prop
  applySign : Sign → υ → Option υ
  Operator : Type
  token : Operator → List α
  level : Operator → Nat
  admits : Operator → Prop
  apply : Operator → υ → υ → Option υ
  /-- The number of levels. -/
  top : Nat

variable {α υ : Type}

inductive Expr (L : Language α υ) where
  | literal (value : υ)
  | sign (s : L.Sign) (e : Expr L)
  | binary (op : L.Operator) (left right : Expr L)

variable {L : Language α υ}

/-- The value of an expression, if it has one. -/
def Expr.eval : Expr L → Option υ
  | .literal value => some value
  | .sign s e => e.eval.bind (L.applySign s)
  | .binary op left right => left.eval.bind fun l => right.eval.bind fun r => L.apply op l r

namespace Language

def Blanks (L : Language α υ) (text : List α) : Prop := ∀ c ∈ text, c = L.blank

/-- The texts of the expressions of a level; on level 0 are the operands. -/
inductive Derives (L : Language α υ) : Nat → List α → Expr L → Prop where
  | literal {s text : List α} {value : υ} : L.Blanks s → L.Literal text value → Derives L 0 (s ++ text) (.literal value)
  | group {s text t : List α} {e : Expr L} : L.Blanks s → Derives L L.top text e → L.Blanks t →
      Derives L 0 (s ++ L.opening :: (text ++ (t ++ [L.closing]))) e
  | sign {s text : List α} {e : Expr L} (u : L.Sign) : L.Blanks s → L.admitsSign u → Derives L 0 text e →
      Derives L 0 (s ++ L.sign u :: text) (.sign u e)
  | operand {n : Nat} {text : List α} {e : Expr L} : Derives L n text e → Derives L (n + 1) text e
  | binary {n : Nat} {l s r : List α} {left right : Expr L} (op : L.Operator) : L.level op = n → L.admits op →
      Derives L (n + 1) l left → L.Blanks s → Derives L n r right →
      Derives L (n + 1) (l ++ (s ++ (L.token op ++ r))) (.binary op left right)

/-- The symbols can be told apart by looking ahead. -/
structure Lawful (L : Language α υ) : Prop where
  token_ne : ∀ op, L.token op ≠ []
  token_blank : ∀ op x, L.token op = L.blank :: x → False
  token_inj : ∀ {op op' x y}, L.token op ++ x = L.token op' ++ y → op = op'
  token_closing : ∀ {op x y}, L.token op ++ x ≠ L.closing :: y
  closing_blank : L.closing ≠ L.blank

theorem blanks_append {s t : List α} (hs : L.Blanks s) (ht : L.Blanks t) : L.Blanks (s ++ t) := fun c hc =>
  (List.mem_append.mp hc).elim (hs c) (ht c)

theorem blanks_nil : L.Blanks [] := fun _ h => (nomatch h)

theorem Derives.blanks {n : Nat} {text t : List α} {e : Expr L} (ht : L.Blanks t) (h : L.Derives n text e) : L.Derives n (t ++ text) e := by
  induction h with
  | literal hs htext =>
    rw [← List.append_assoc]
    exact .literal (blanks_append ht hs) htext
  | group hs htext hend _ =>
    rw [← List.append_assoc]
    exact .group (blanks_append ht hs) htext hend
  | sign u hs hadmits htext _ =>
    rw [← List.append_assoc]
    exact .sign u (blanks_append ht hs) hadmits htext
  | operand _ ih => exact .operand ih
  | binary op hlevel hadmits _ hs hright ih _ =>
    rw [← List.append_assoc]
    exact .binary op hlevel hadmits ih hs hright

/-- An expression of a level ends before this. -/
def Stops (L : Language α υ) (n : Nat) (text : List α) : Prop :=
  text = [] ∨ (∃ x, text = L.closing :: x) ∨ ∃ op x, n ≤ L.level op ∧ text = L.token op ++ x

theorem Stops.mono {n m : Nat} {text : List α} (h : L.Stops n text) (hm : m ≤ n) : L.Stops m text := by
  rcases h with h | h | ⟨op, x, hop, h⟩
  · exact Or.inl h
  · exact Or.inr (Or.inl h)
  · exact Or.inr (Or.inr ⟨op, x, hm.trans hop, h⟩)

theorem Lawful.stopped (h : L.Lawful) {n : Nat} {text : List α} (hstops : L.Stops (n + 1) text) {op : L.Operator} {x : List α}
    (hop : L.level op = n) : text ≠ L.token op ++ x := by
  rintro rfl
  rcases hstops with hnil | ⟨y, hclosing⟩ | ⟨op', y, hlevel, htoken⟩
  · exact h.token_ne op (List.append_eq_nil_iff.mp hnil).1
  · exact h.token_closing hclosing
  · obtain rfl := h.token_inj htoken
    omega

variable [DecidableEq α]

/-- The text from its first symbol that is not blank. -/
def ahead (L : Language α υ) (text : List α) : List α := text.dropWhile (· = L.blank)

theorem ahead_blanks {s : List α} (h : L.Blanks s) (text : List α) : L.ahead (s ++ text) = L.ahead text := by
  rw [ahead, List.dropWhile_append_of_pos fun c hc => decide_eq_true (h c hc), ahead]

theorem ahead_cons {c : α} (h : c ≠ L.blank) (text : List α) : L.ahead (c :: text) = c :: text := by
  rw [ahead, List.dropWhile_cons_of_neg (by simpa using h)]

theorem exists_blanks (text : List α) : ∃ s, L.Blanks s ∧ text = s ++ L.ahead text := by
  refine ⟨text.takeWhile (· = L.blank), fun c hc => ?_, (List.takeWhile_append_dropWhile ..).symm⟩
  simpa using List.mem_takeWhile_imp hc

theorem ahead_ahead (text : List α) : L.ahead (L.ahead text) = L.ahead text := List.dropWhile_idempotent ..

theorem Lawful.ahead_token (h : L.Lawful) (op : L.Operator) (text : List α) : L.ahead (L.token op ++ text) = L.token op ++ text := by
  cases htoken : L.token op with
  | nil => exact absurd htoken (h.token_ne op)
  | cons c x =>
    rw [List.cons_append, ahead_cons]
    rintro rfl
    exact h.token_blank op x htoken

end Language

/-! ### Parsers -/

/-- The states that parsers run over: what is still to be read, and whether an error was found. `Valid` is what every state keeps,
`Value` what every value is that is returned. -/
structure Scanner (α υ σ : Type) where
  rest : σ → List α
  failed : σ → Bool
  Valid : σ → Prop
  Value : υ → Prop

variable {σ : Type} {S : Scanner α υ σ} {n k : Nat} {sub : σ → Option (υ × σ)} {body : υ → σ → Option (υ × σ × Bool)}

/-- A parser is called before an error, and with no more than `k` symbols to read. -/
structure Scanner.Ready (S : Scanner α υ σ) (k : Nat) (p : σ) : Prop where
  valid : S.Valid p
  running : S.failed p = false
  short : (S.rest p).length ≤ k

structure Scanner.Leads (S : Scanner α υ σ) (p p' : σ) : Prop where
  valid : S.Valid p'
  length : (S.rest p').length ≤ (S.rest p).length

theorem Scanner.Leads.trans {p q r : σ} (h : S.Leads p q) (h' : S.Leads q r) : S.Leads p r := ⟨h'.valid, h'.length.trans h.length⟩

theorem Scanner.Ready.leads {p p' : σ} (h : S.Ready k p) (hp : S.Leads p p') (hrunning : S.failed p' = false) : S.Ready k p' :=
  ⟨hp.valid, hrunning, hp.length.trans h.short⟩

variable [DecidableEq α]

/-- What lies between two states is an expression with this value, and blanks. -/
def Derived (L : Language α υ) (S : Scanner α υ σ) (n : Nat) (p : σ) (value : υ) (p' : σ) : Prop :=
  ∃ text s e, L.Blanks s ∧ S.rest p = text ++ (s ++ S.rest p') ∧ L.Derives n text e ∧ e.eval = some value

/-- What an expression comes to: its value, or an error. -/
def Outcome (L : Language α υ) (S : Scanner α υ σ) (e : Expr L) (tail : List α) (value : υ) (p' : σ) : Prop :=
  match e.eval with
  | some v => value = v ∧ S.failed p' = false ∧ L.ahead (S.rest p') = L.ahead tail
  | none => S.failed p' = true

/-- The parser always ends. Without an error it has read an expression, and it gives every expression what that comes to. -/
structure Parses (L : Language α υ) (S : Scanner α υ σ) (n k : Nat) (f : σ → Option (υ × σ)) : Prop where
  sound : ∀ p, S.Ready k p → ∃ v p', f p = some (v, p') ∧ S.Value v ∧ S.Leads p p' ∧ (S.failed p' = false → Derived L S n p v p')
  complete : ∀ p text tail e, S.Ready k p → L.Derives n text e → L.ahead (S.rest p) = L.ahead (text ++ tail) →
    L.Stops n (L.ahead tail) → ∃ v p', f p = some (v, p') ∧ Outcome L S e tail v p'

/-- A loop that goes on until an error or a break. -/
def whileRunning (failed : σ → Bool) (body : υ → σ → Option (υ × σ × Bool)) : Nat → υ → σ → Option (υ × σ)
  | 0, _, _ => none
  | rounds + 1, value, p =>
    if failed p then some (value, p)
    else do
      let (value, p, again) ← body value p
      if again then whileRunning failed body rounds value p else some (value, p)

/-- How a round ends behind the operand of its operator. -/
structure Finished (L : Language α υ) (S : Scanner α υ σ) (op : L.Operator) (left right : υ) (p : σ) (value : υ) (p' : σ) (again : Bool) :
    Prop where
  rest : S.rest p' = S.rest p
  valid : S.Valid p'
  good : S.Value value
  result : S.failed p' = false → S.failed p = false ∧ L.apply op left right = some value ∧ again = true
  running : S.failed p = false → ∀ v, L.apply op left right = some v → S.failed p' = false

/-- What one round of the loop of a level does. -/
structure Rounds (L : Language α υ) (S : Scanner α υ σ) (n k : Nat) (sub : σ → Option (υ × σ)) (body : υ → σ → Option (υ × σ × Bool)) :
    Prop where
  stop : ∀ v p, S.Ready k p → (∀ op x, L.level op = n → L.ahead (S.rest p) ≠ L.token op ++ x) →
    ∃ p', body v p = some (v, p', false) ∧ S.Valid p' ∧ S.failed p' = false ∧ S.rest p' = L.ahead (S.rest p)
  refuse : ∀ v p op x, S.Value v → S.Ready k p → L.level op = n → ¬L.admits op → L.ahead (S.rest p) = L.token op ++ x →
    ∃ p', body v p = some (v, p', false) ∧ S.Leads p p' ∧ S.failed p' = true
  go : ∀ v p op x, S.Value v → S.Ready k p → L.level op = n → L.admits op → L.ahead (S.rest p) = L.token op ++ x →
    ∃ p1, S.Valid p1 ∧ S.failed p1 = false ∧ S.rest p1 = x ∧
      ∀ right p2, sub p1 = some (right, p2) → S.Value right → S.Valid p2 →
        ∃ value p3 again, body v p = some (value, p3, again) ∧ Finished L S op v right p2 value p3 again

section
variable (hlawful : L.Lawful) (hsub : Parses L S n k sub) (hbody : Rounds L S n k sub body)
include hlawful

theorem rest_token {p : σ} {op : L.Operator} {x : List α} (h : L.ahead (S.rest p) = L.token op ++ x) :
    ∃ s, L.Blanks s ∧ S.rest p = s ++ (L.token op ++ x) ∧ x.length < (S.rest p).length := by
  obtain ⟨s, hs, hrest⟩ := Language.exists_blanks (L := L) (S.rest p)
  rw [h] at hrest
  refine ⟨s, hs, hrest, ?_⟩
  have hpos := List.length_pos_iff.mpr (hlawful.token_ne op)
  rw [hrest, List.length_append, List.length_append]
  omega

include hsub hbody

theorem whileRunning_sound {p0 : σ} {rounds : Nat} {v : υ} {p : σ} (hv : S.Value v) (hvalid : S.Valid p)
    (hshort : (S.rest p).length ≤ k) (hrounds : (S.rest p).length < rounds)
    (hread : S.failed p = false → Derived L S (n + 1) p0 v p) :
    ∃ v' p', whileRunning S.failed body rounds v p = some (v', p') ∧ S.Value v' ∧ S.Leads p p' ∧
      (S.failed p' = false → Derived L S (n + 1) p0 v' p') := by
  induction rounds generalizing v p with
  | zero => omega
  | succ rounds ih =>
    rw [whileRunning]
    cases hfailed : S.failed p with
    | true => exact ⟨v, p, if_pos rfl, hv, ⟨hvalid, Nat.le_refl _⟩, fun h => absurd h (by simp [hfailed])⟩
    | false =>
      rw [if_neg (by simp)]
      have hready : S.Ready k p := ⟨hvalid, hfailed, hshort⟩
      obtain ⟨text, s, e, hs, hrest, he, heval⟩ := hread hfailed
      by_cases hop : ∃ op x, L.level op = n ∧ L.ahead (S.rest p) = L.token op ++ x
      · obtain ⟨op, x, hlevel, hahead⟩ := hop
        obtain ⟨t, ht, hrest', hless⟩ := rest_token hlawful hahead
        by_cases hadmits : L.admits op
        · obtain ⟨p1, hvalid1, hrunning1, hrest1, hgo⟩ := hbody.go v p op x hv hready hlevel hadmits hahead
          have hready1 : S.Ready k p1 := ⟨hvalid1, hrunning1, by rw [hrest1]; omega⟩
          obtain ⟨right, p2, hsub2, hright, hleads2, hread2⟩ := hsub.sound p1 hready1
          obtain ⟨value, p3, again, hbody3, hfinished⟩ := hgo right p2 hsub2 hright hleads2.valid
          have hlength : (S.rest p3).length ≤ x.length := by
            rw [hfinished.rest, ← hrest1]
            exact hleads2.length
          have hread3 : S.failed p3 = false → Derived L S (n + 1) p0 value p3 := by
            intro hrunning
            obtain ⟨hrunning2, happly, -⟩ := hfinished.result hrunning
            obtain ⟨text2, s2, e2, hs2, hrest2, he2, heval2⟩ := hread2 hrunning2
            refine ⟨text ++ ((s ++ t) ++ (L.token op ++ text2)), s2, .binary op e e2, hs2, ?_,
              .binary op hlevel hadmits he (Language.blanks_append hs ht) he2, ?_⟩
            · rw [hrest, hrest', ← hrest1, hrest2, hfinished.rest]
              simp only [List.append_assoc]
            · simp only [Expr.eval, heval, heval2, Option.bind_some, happly]
          have hleads3 : S.Leads p p3 := ⟨hfinished.valid, by omega⟩
          rw [hbody3]
          cases again with
          | true =>
            obtain ⟨v', p', hrun, hv', hleads, hread'⟩ := ih hfinished.good hfinished.valid (by omega) (by omega) hread3
            exact ⟨v', p', hrun, hv', hleads3.trans hleads, hread'⟩
          | false => exact ⟨value, p3, rfl, hfinished.good, hleads3, hread3⟩
        · obtain ⟨p', hbody', hleads, hfailed'⟩ := hbody.refuse v p op x hv hready hlevel hadmits hahead
          rw [hbody']
          exact ⟨v, p', rfl, hv, hleads, fun h => absurd h (by simp [hfailed'])⟩
      · obtain ⟨p', hbody', hvalid', -, hrest'⟩ := hbody.stop v p hready fun op x hlevel hahead => hop ⟨op, x, hlevel, hahead⟩
        rw [hbody']
        obtain ⟨t, ht, hblanks⟩ := Language.exists_blanks (L := L) (S.rest p)
        have hlength : (S.rest p').length ≤ (S.rest p).length := by
          rw [hrest', hblanks, Language.ahead_blanks ht, Language.ahead_ahead]
          simp
        refine ⟨v, p', rfl, hv, ⟨hvalid', hlength⟩, fun _ => ⟨text, s ++ t, e, Language.blanks_append hs ht, ?_, he, heval⟩⟩
        rw [hrest, hblanks, hrest', hblanks, Language.ahead_blanks ht, Language.ahead_ahead]
        simp only [List.append_assoc]

theorem level_reaches {rounds : Nat} (hrounds : k < rounds) {text : List α} {e : Expr L} (he : L.Derives (n + 1) text e) :
    ∀ p tail, S.Ready k p → L.ahead (S.rest p) = L.ahead (text ++ tail) → L.Stops n (L.ahead tail) →
      match e.eval with
      | some v => ∃ r p', ((sub p).bind fun (v, p) => whileRunning S.failed body rounds v p) = whileRunning S.failed body r v p' ∧
          S.Value v ∧ S.Ready k p' ∧ (S.rest p').length < r ∧ L.ahead (S.rest p') = L.ahead tail
      | none => ∃ v p', ((sub p).bind fun (v, p) => whileRunning S.failed body rounds v p) = some (v, p') ∧ S.failed p' = true := by
  generalize hm : n + 1 = m at he
  induction he with
  | literal | group | sign => cases hm
  | @operand n' text e he =>
    obtain rfl := Nat.succ.inj hm
    intro p tail hready hahead hstops
    obtain ⟨v, p', hrun, houtcome⟩ := hsub.complete p text tail e hready he hahead hstops
    obtain ⟨v', p'', hrun', hv, hleads, -⟩ := hsub.sound p hready
    obtain ⟨rfl, rfl⟩ := Prod.mk.inj (Option.some.inj (hrun'.symm.trans hrun))
    unfold Outcome at houtcome
    rw [hrun, Option.bind_some]
    cases heval : e.eval with
    | some w =>
      rw [heval] at houtcome
      obtain ⟨rfl, hrunning, hahead'⟩ := houtcome
      have hready' := hready.leads hleads hrunning
      exact ⟨rounds, _, rfl, hv, hready', hready'.short.trans_lt hrounds, hahead'⟩
    | none =>
      rw [heval] at houtcome
      obtain ⟨rounds, rfl⟩ := Nat.exists_eq_succ_of_ne_zero (by omega : rounds ≠ 0)
      exact ⟨_, _, if_pos houtcome, houtcome⟩
  | @binary n' l s r left right op hlevel hadmits _ hs hright ihleft _ =>
    obtain rfl := Nat.succ.inj hm
    intro p tail hready hahead hstops
    have hahead1 : L.ahead (s ++ (L.token op ++ (r ++ tail))) = L.token op ++ (r ++ tail) := by
      rw [Language.ahead_blanks hs, hlawful.ahead_token]
    have hleft := ihleft rfl p (s ++ (L.token op ++ (r ++ tail))) hready (by rw [hahead]; simp only [List.append_assoc])
      (Or.inr (Or.inr ⟨op, _, hlevel.ge, hahead1⟩))
    rw [Expr.eval]
    cases hevalleft : left.eval with
    | none =>
      rw [hevalleft] at hleft
      exact hleft
    | some v1 =>
      rw [hevalleft] at hleft
      obtain ⟨rounds', p1, hloop, hv1, hready1, hrounds1, hahead1'⟩ := hleft
      rw [hahead1] at hahead1'
      obtain ⟨r', rfl⟩ := Nat.exists_eq_succ_of_ne_zero (by omega : rounds' ≠ 0)
      obtain ⟨p2, hvalid2, hrunning2, hrest2, hgo⟩ := hbody.go v1 p1 op _ hv1 hready1 hlevel hadmits hahead1'
      obtain ⟨-, -, -, hless⟩ := rest_token hlawful hahead1'
      have hready2 : S.Ready k p2 := ⟨hvalid2, hrunning2, by have := hready1.short; rw [hrest2]; omega⟩
      obtain ⟨v2, p3, hrun3, houtcome⟩ := hsub.complete p2 r tail right hready2 hright (by rw [hrest2]) hstops
      obtain ⟨v2', p3', hrun3', hv2, hleads3, -⟩ := hsub.sound p2 hready2
      obtain ⟨rfl, rfl⟩ := Prod.mk.inj (Option.some.inj (hrun3'.symm.trans hrun3))
      obtain ⟨value, p4, again, hbody4, hfinished⟩ := hgo v2' p3' hrun3 hv2 hleads3.valid
      have hstep : whileRunning S.failed body (r' + 1) v1 p1 =
          if again then whileRunning S.failed body r' value p4 else some (value, p4) := by
        rw [whileRunning, if_neg (by simp [hready1.running]), hbody4]
        rfl
      have hlength4 : (S.rest p4).length < r' := by
        have := hleads3.length
        rw [hfinished.rest]
        rw [hrest2] at this
        omega
      -- an error shows at the head of the next round
      have herror (hfailed : S.failed p4 = true) : ∃ v p', whileRunning S.failed body (r' + 1) v1 p1 = some (v, p') ∧ S.failed p' = true := by
        obtain ⟨r'', rfl⟩ := Nat.exists_eq_succ_of_ne_zero (by omega : r' ≠ 0)
        refine ⟨value, p4, ?_, hfailed⟩
        rw [hstep]
        cases again with
        | true => exact if_pos hfailed
        | false => rfl
      unfold Outcome at houtcome
      simp only [Option.bind_some]
      cases hevalright : right.eval with
      | none =>
        rw [hevalright] at houtcome
        rw [hloop]
        refine herror (eq_true_of_ne_false fun h => ?_)
        rw [(hfinished.result h).1] at houtcome
        cases houtcome
      | some w =>
        rw [hevalright] at houtcome
        obtain ⟨rfl, hrunning3, hahead3⟩ := houtcome
        simp only [Option.bind_some]
        cases happly : L.apply op v1 v2' with
        | none =>
          rw [hloop]
          refine herror (eq_true_of_ne_false fun h => ?_)
          cases happly.symm.trans (hfinished.result h).2.1
        | some v4 =>
          have hrunning4 := hfinished.running hrunning3 v4 happly
          obtain ⟨-, hvalue, rfl⟩ := hfinished.result hrunning4
          obtain rfl := Option.some.inj (happly.symm.trans hvalue)
          refine ⟨r', p4, by rw [hloop, hstep]; rfl, hfinished.good, ⟨hfinished.valid, hrunning4, ?_⟩, hlength4, by rw [hfinished.rest, hahead3]⟩
          rw [hfinished.rest]
          exact hleads3.length.trans hready2.short

theorem level_parses {rounds : Nat} (hrounds : k < rounds) :
    Parses L S (n + 1) k fun p => (sub p).bind fun (v, p) => whileRunning S.failed body rounds v p := by
  constructor
  · intro p hready
    obtain ⟨v, p1, hrun, hv, hleads, hread⟩ := hsub.sound p hready
    have hread' (hrunning : S.failed p1 = false) : Derived L S (n + 1) p v p1 := by
      obtain ⟨text, s, e, hs, hrest, he, heval⟩ := hread hrunning
      exact ⟨text, s, e, hs, hrest, .operand he, heval⟩
    have hshort := hleads.length.trans hready.short
    obtain ⟨v', p', hloop, hv', hleads', hderived⟩ := whileRunning_sound hlawful hsub hbody hv hleads.valid hshort
      (hshort.trans_lt hrounds) hread'
    exact ⟨v', p', by rw [hrun]; exact hloop, hv', hleads.trans hleads', hderived⟩
  · intro p text tail e hready he hahead hstops
    have hreach := level_reaches hlawful hsub hbody hrounds he p tail hready hahead (hstops.mono (Nat.le_succ n))
    unfold Outcome
    cases heval : e.eval with
    | none =>
      rw [heval] at hreach
      exact hreach
    | some v =>
      rw [heval] at hreach
      obtain ⟨r, p', hloop, -, hready', hless, hahead'⟩ := hreach
      obtain ⟨r, rfl⟩ := Nat.exists_eq_succ_of_ne_zero (by omega : r ≠ 0)
      obtain ⟨p'', hbody', -, hrunning, hrest⟩ := hbody.stop v p' hready' fun op x hlevel => by
        rw [hahead']
        exact hlawful.stopped hstops hlevel
      refine ⟨v, p'', ?_, rfl, hrunning, by rw [hrest, Language.ahead_ahead, hahead']⟩
      rw [hloop, whileRunning, if_neg (by simp [hready'.running]), hbody']
      rfl

end
end ZenovOS.Expressions
