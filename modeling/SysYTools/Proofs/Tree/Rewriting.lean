import SysYTools.Proofs.Tree.Carrier

/-!
Rewriting the definitions of a program in its words. A rewriting keeps signs and keywords, it keeps nested
words as long as what follows does not go on with them, and it turns each definition of a variable into
another one. Then it turns programs into programs, and nothing but the definitions is changed.
-/

namespace SysYTools

open List Lexis Grammar

variable {token : Token} {form form' : List Token → Prop} {kind : TokenKind} {rest tokens : List Token}
  {vars : List VarDef}

/-- What a rewriting of definitions does to the words of a text, from some point of it on. -/
structure Rewriting (change : VarDef → VarDef) (Fine : VarDef → Prop) where
  Turns : List Word → List Word → Prop
  sign {kind : TokenKind} {value : Text} {words words' : List Word} : kind.isSign = true →
    Turns words words' → Turns ((kind, value) :: words) ((kind, value) :: words')
  keyword {kind : TokenKind} {value : Text} {words words' : List Word} : kind.isKeyword = true →
    (∀ next ∈ words.head?, next.1 ≠ .leftBracket) →
    Turns words words' → Turns ((kind, value) :: words) ((kind, value) :: words')
  pass {words after after' : List Word} : Nest true words → Ends after → Turns after after' →
    Turns (words ++ after) (words ++ after')
  define {tokens : List Token} {var : VarDef} : Definition tokens var → Fine var →
    ∃ words', (∀ after after', Ends after → Turns after after' →
        Turns (tokens.map wordOf ++ after) (words' ++ after')) ∧
      ∀ tokens', tokens'.map wordOf = words' → ∃ var', Definition tokens' var' ∧ var'.shape = (change var).shape

namespace Rewriting

variable {change : VarDef → VarDef} {Fine : VarDef → Prop} (rewriting : Rewriting change Fine)

/-- Tokens are turned into words of a form, before every text that ends them. -/
def Becomes (ends : List Word → Prop) (tokens : List Token) (form : List Token → Prop) : Prop :=
  ∃ words', (∀ after after', ends after → rewriting.Turns after after' →
      rewriting.Turns (tokens.map wordOf ++ after) (words' ++ after')) ∧
    ∀ tokens', tokens'.map wordOf = words' → form tokens'

/-- Anything may follow. -/
def Anything (_ : List Word) : Prop := True

variable {rewriting} {ends : List Word → Prop}

theorem Becomes.mono (becomes : rewriting.Becomes ends tokens form)
    (weaker : ∀ tokens', form tokens' → form' tokens') : rewriting.Becomes ends tokens form' := by
  obtain ⟨words', turns, formed⟩ := becomes
  exact ⟨words', turns, fun tokens' same => weaker tokens' (formed tokens' same)⟩

theorem Becomes.nil : rewriting.Becomes ends [] (· = []) :=
  ⟨[], fun _ _ _ turns => turns, fun _ same => map_eq_nil_iff.mp same⟩

theorem Becomes.sign {rest : List Token} {form : List Token → Prop} {kind : TokenKind}
    (found : token.kind = kind) (becomes : rewriting.Becomes ends rest form)
    (isSign : kind.isSign = true) :
    rewriting.Becomes ends (token :: rest) fun tokens' =>
      ∃ token' rest', tokens' = token' :: rest' ∧ token'.kind = kind ∧ form rest' := by
  obtain ⟨words', turns, formed⟩ := becomes
  refine ⟨wordOf token :: words', fun after after' ending turned => ?_, fun tokens' same => ?_⟩
  · exact rewriting.sign (found ▸ isSign) (turns after after' ending turned)
  · obtain ⟨token', rest', rfl, sameToken, sameRest⟩ := map_eq_cons_iff.mp same
    exact ⟨token', rest', rfl, (kind_of_wordOf sameToken).trans found, formed rest' sameRest⟩

theorem Becomes.keyword {rest : List Token} {form : List Token → Prop} {kind : TokenKind}
    (found : token.kind = kind) (becomes : rewriting.Becomes ends rest form) (isKeyword : kind.isKeyword = true)
    (starts : ∃ first more, rest = first :: more ∧ first.kind ≠ .leftBracket) :
    rewriting.Becomes ends (token :: rest) fun tokens' =>
      ∃ token' rest', tokens' = token' :: rest' ∧ token'.kind = kind ∧ form rest' := by
  obtain ⟨first, _, rfl, other⟩ := starts
  obtain ⟨words', turns, formed⟩ := becomes
  refine ⟨wordOf token :: words', fun after after' ending turned => ?_, fun tokens' same => ?_⟩
  · refine rewriting.keyword (found ▸ isKeyword) ?_ (turns after after' ending turned)
    intro next head
    obtain rfl : wordOf first = next := by simpa using head
    exact other
  · obtain ⟨token', rest', rfl, sameToken, sameRest⟩ := map_eq_cons_iff.mp same
    exact ⟨token', rest', rfl, (kind_of_wordOf sameToken).trans found, formed rest' sameRest⟩

theorem Becomes.chunk (nest : Nest true (tokens.map wordOf)) :
    rewriting.Becomes Ends tokens fun tokens' => tokens'.map wordOf = tokens.map wordOf :=
  ⟨tokens.map wordOf, fun _ _ ending turned => rewriting.pass nest ending turned, fun _ same => same⟩

theorem Becomes.join {ends' : List Word → Prop} (first : rewriting.Becomes ends tokens form)
    (between : ∀ after, ends' after → ends (rest.map wordOf ++ after)) (second : rewriting.Becomes ends' rest form') :
    rewriting.Becomes ends' (tokens ++ rest) fun tokens' =>
      ∃ front' rest', tokens' = front' ++ rest' ∧ form front' ∧ form' rest' := by
  obtain ⟨front', turnsFront, formedFront⟩ := first
  obtain ⟨words', turns, formed⟩ := second
  refine ⟨front' ++ words', fun after after' ending turned => ?_, fun tokens' same => ?_⟩
  · rw [map_append, append_assoc, append_assoc]
    exact turnsFront _ _ (between after ending) (turns after after' ending turned)
  · obtain ⟨front', rest', rfl, sameFront, sameRest⟩ := map_eq_append_iff.mp same
    exact ⟨front', rest', rfl, formedFront front' sameFront, formed rest' sameRest⟩

/-! ## Declarations -/

theorem separated (derived : Separated Definition tokens vars) (fine : ∀ var ∈ vars, Fine var) :
    rewriting.Becomes Ends tokens fun tokens' => ∃ vars', Separated Definition tokens' vars' ∧
      vars'.map VarDef.shape = vars.map fun var => (change var).shape := by
  induction derived with
  | single first =>
    refine Becomes.mono (rewriting.define first (fine _ mem_cons_self)) ?_
    rintro tokens' ⟨var', derived', shape⟩
    exact ⟨[var'], .single derived', by rw [map_singleton, map_singleton, shape]⟩
  | @more _ others comma _ _ first separates _ ih =>
    have between : ∀ after, Ends after → Ends ((comma :: others).map wordOf ++ after) :=
      fun _ _ => .of_kind separates (by decide)
    have second := ih fun var member => fine var (mem_cons_of_mem _ member)
    have joined := Becomes.join (rewriting.define first (fine _ mem_cons_self)) between (second.sign separates rfl)
    refine joined.mono ?_
    rintro _ ⟨_, _, rfl, ⟨_, derived', shape⟩, _, _, rfl, separates', _, derivedRest, shapes⟩
    exact ⟨_, .more derived' separates' derivedRest, by rw [map_cons, map_cons, shape, shapes]⟩

/-- The same arguments, and the definitions as a rewriting changes them. -/
def carrier (rewriting : Rewriting change Fine) : Carrier none change Fine where
  Takes _ tokens form := rewriting.Becomes Anything tokens (form [])
  mono becomes weaker := becomes.mono (weaker [])
  above becomes _ := becomes
  nil := Becomes.nil
  sign found isSign becomes := becomes.sign found isSign
  keyword found isKeyword starts becomes := becomes.keyword found isKeyword starts
  part nest carries found ends becomes := by
    have isSign := (ends [] _ _ rfl).1
    refine ((Becomes.chunk nest).join (fun after _ => ends after) (becomes.sign found (found ▸ isSign))).mono ?_
    rintro _ ⟨left, _, rfl, same, mark', right, rfl, found', formed⟩
    exact ⟨left, mark', right, rfl, carries.reword same, found', formed⟩
  join first _ second := first.join (fun _ _ => trivial) second
  defs {_ _ stop} inside fine stops := by
    have between : ∀ after, Anything after → Ends ([stop].map wordOf ++ after) := fun _ _ => .of_kind stops (by decide)
    refine ((separated inside fine).join between (Becomes.nil.sign stops rfl)).mono ?_
    rintro _ ⟨left, _, rfl, ⟨vars', derived', shapes⟩, stop', _, rfl, stops', rfl⟩
    exact ⟨left, stop', vars', rfl, derived', stops', by simp only [shapes, VarDef.passing_none]⟩

/-- A rewriting turns a program into a program that differs in its definitions only. -/
theorem topLevel {list : List Item} (derived : TopLevel tokens list)
    (fine : ∀ item ∈ list, ∀ var ∈ item.defs, Fine var) :
    rewriting.Becomes Anything tokens fun tokens' =>
      ∃ list', TopLevel tokens' list' ∧ list'.map (·.shape id) = list.map (·.shape change) := by
  have becomes : rewriting.Becomes Anything tokens _ := rewriting.carrier.topLevel derived fine
  simpa only [Item.passing_none, map_id'] using becomes

end Rewriting

end SysYTools
