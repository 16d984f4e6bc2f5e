import Mathlib.Data.List.TakeWhile
import Unravel.Proofs.Literals.Numerals
import Unravel.Proofs.Literals.Plain
import Unravel.Strings.Inlining

/-! Arguments of decoders in the scripts that run them. What is written for a list of literals is read
back by JavaScript as just as many arguments of the same values, whatever stands in a string. -/

namespace Unravel

namespace Strings

attribute [local instance(5000)] instPowNat

/-- A value that is passed to a function. -/
inductive Argument where
  | text (value : Text)
  | number (value : Double)
deriving DecidableEq

/-- Strict equality, by which the two zeros are the same. -/
inductive Argument.StrictEq : Argument → Argument → Prop
  | text (t : Text) : StrictEq (.text t) (.text t)
  | number {x y : Double} (h : x.numEq y = true) : StrictEq (.number x) (.number y)

/-! ### Reading an argument list -/

/-- Blanks and the ends of lines. U+180E is no blank any more. -/
def isSpace (c : Nat) : Bool := (Text.isBlank c && c ≠ 0x180E) || Text.isLineEnd c

def skipSpace (t : Text) : Text := t.dropWhile isSpace

/-- The literal, with a minus before it or not, that a text starts with, and what is left. -/
def readArgument : Text → Option (Argument × Text)
  | [] => none
  | c :: rest =>
    if c = 34 || c = 39 then (Text.readUpTo c 0 rest).map fun (t, left) => (.text t, left)
    else if c = 45 then (Text.numeral? (skipSpace rest)).map fun (x, left) => (.number x.neg, left)
    else (Text.numeral? (c :: rest)).map fun (x, left) => (.number x, left)

/-- The arguments up to the parenthesis that closes their list, and what is left behind it. A comma
may stand after the last one. -/
def readArguments (t : Text) : Option (List Argument × Text) :=
  let first := skipSpace t
  if first.head? = some 41 then some ([], first.tail)
  else
    (readArgument first).bind fun (a, left) =>
      let next := skipSpace left
      if next.head? = some 41 then some ([a], next.tail)
      else if next.head? = some 44 then
        if next.tail.length < t.length then
          (readArguments next.tail).map fun (more, left) => (a :: more, left)
        else none
      else none
termination_by t.length
decreasing_by assumption

/-- Either quote, an escape, a numeral with a mark, and a comma after the last argument. -/
example : readArguments (Text.ofString "'\\x41', - 0x10 ,);") =
    some ([.text [65], .number (.ofInt (-16))], [59]) := by decide +kernel

/-- A text that is read as a value wherever it ends, and not passed over in front of it. -/
structure ReadsAs (t : Text) (a : Argument) : Prop where
  starts : ∃ c rest, t = c :: rest ∧ isSpace c = false ∧ c ≠ 41
  reads : ∀ rest, Text.EndsLiteral rest → readArgument (t ++ rest) = some (a, rest)

private theorem skipSpace_of_starts {t : Text} (h : ∃ c rest, t = c :: rest ∧ isSpace c = false ∧ c ≠ 41)
    (rest : Text) : skipSpace (t ++ rest) = t ++ rest ∧ (t ++ rest).head? ≠ some 41 := by
  obtain ⟨c,t,rfl,hspace,hc⟩ := h
  exact ⟨List.dropWhile_cons_of_neg (by simp [hspace]),by simpa using hc⟩

/-- Texts with a comma and a blank between them are read one by one. -/
theorem readArguments_join {texts : List Text} {values : List Argument}
    (h : List.Forall₂ ReadsAs texts values) (rest : Text) :
    readArguments (Text.join [44, 32] texts ++ 41 :: rest) = some (values, rest) := by
  -- from the second text on a blank stands in front
  suffices hblank : ∀ front, (∀ c ∈ front, isSpace c = true) →
      readArguments (front ++ (Text.join [44, 32] texts ++ 41 :: rest)) = some (values, rest) from
    hblank [] (by simp)
  induction h with
  | nil =>
    intro front hfront
    rw [readArguments, skipSpace, List.dropWhile_append_of_pos hfront]
    rfl
  | @cons t a texts values ha hmore ih =>
    intro front hfront
    have hskip (left : Text) : skipSpace (front ++ (t ++ left)) = t ++ left ∧ (t ++ left).head? ≠ some 41 := by
      have := skipSpace_of_starts ha.starts left
      rwa [skipSpace, List.dropWhile_append_of_pos hfront]
    cases hmore with
    | nil =>
      rw [readArguments, Text.join, (hskip _).1, if_neg (hskip _).2, ha.reads _ (.closing rest)]
      rfl
    | @cons u b texts values hb hmore =>
      have hjoin : Text.join [44, 32] (t :: u :: texts) ++ 41 :: rest =
          t ++ 44 :: ([32] ++ (Text.join [44, 32] (u :: texts) ++ 41 :: rest)) := by
        simp [Text.join]
      have hread := ih [32] (by decide)
      rw [hjoin, readArguments, (hskip _).1, if_neg (hskip _).2, ha.reads _ (.comma _), Option.bind_some]
      have hcomma (left : Text) : skipSpace (44 :: left) = 44 :: left := rfl
      have hshorter (left : Text) : left.length < (front ++ (t ++ 44 :: left)).length := by
        simp
        omega
      simp only [hcomma, List.head?_cons, List.tail_cons, Option.some.injEq, hshorter, hread, if_true]
      rfl

/-! ### What is written for a literal -/

theorem readsAs_quoted (t : Text) : ReadsAs t.quoted (.text t) := by
  have hquoted : t.quoted = 34 :: (t.flatMap (fun c => (Text.escaped? c).getD [c]) ++ [34]) := rfl
  refine ⟨⟨34,_,hquoted,by decide,by decide⟩,fun rest _ => ?_⟩
  rw [hquoted, List.cons_append, List.append_assoc, readArgument, if_pos (by decide), List.singleton_append,
    Text.readUpTo_quoted]
  rfl

private theorem isSpace_digit {c : Nat} (h : 48 ≤ c ∧ c ≤ 57) : isSpace c = false := by
  have hdigits : ∀ c < 58, 48 ≤ c → isSpace c = false := by decide
  exact hdigits c (by omega) h.1

private theorem readsAs_repr (n : Nat) : ReadsAs (Text.ofString (Nat.repr n)) (.number (.ofInt n)) := by
  obtain ⟨c,digits,hdigits,hc⟩ := Text.exists_repr n
  refine ⟨⟨c,digits,hdigits,isSpace_digit hc,by omega⟩,fun rest hrest => ?_⟩
  have hnumeral := Text.numeral?_repr n hrest
  rw [hdigits, List.cons_append] at hnumeral
  rw [hdigits, List.cons_append, readArgument, if_neg (by simp; omega), if_neg (by omega), hnumeral,
    Option.map_some, Double.ofNat_eq_ofInt]

private theorem readsAs_minus (n : Nat) :
    ReadsAs (45 :: Text.ofString (Nat.repr n)) (.number (Double.ofInt n).neg) := by
  obtain ⟨c,digits,hdigits,hc⟩ := Text.exists_repr n
  refine ⟨⟨45,_,rfl,by decide,by decide⟩,fun rest hrest => ?_⟩
  have hskip : skipSpace (Text.ofString (Nat.repr n) ++ rest) = Text.ofString (Nat.repr n) ++ rest := by
    rw [hdigits]
    exact List.dropWhile_cons_of_neg (by simp [isSpace_digit hc])
  rw [List.cons_append, readArgument, if_neg (by decide), if_pos rfl, hskip, Text.numeral?_repr n hrest,
    Option.map_some, Double.ofNat_eq_ofInt]

/-- An integer is read as its double, however many digits it has. -/
theorem readsAs_intText (k : Int) : ReadsAs (Text.ofString (Number.intText k)) (.number (.ofInt k)) := by
  unfold Number.intText
  split
  · rename_i hneg
    have htext : Text.ofString ("-" ++ Nat.repr k.natAbs) = 45 :: Text.ofString (Nat.repr k.natAbs) := by
      rw [Text.ofString, String.toList_append, List.map_append]
      rfl
    have habs : -(k.natAbs : Int) = k := by omega
    have hminus := readsAs_minus k.natAbs
    rwa [← htext, Double.neg_ofInt (by omega), habs] at hminus
  · rename_i hpos
    have habs : (k.natAbs : Int) = k := by omega
    have hrepr := readsAs_repr k.natAbs
    rwa [habs] at hrepr

/-! ### Literals of the program -/

/-- What a string literal, an integer literal or a minus before one stands for in a run. -/
inductive Denotes (n : Node) : Argument → Prop
  | text {t : Text} {raw : Option Text} (h : n.label = .literal (.text t) raw) : Denotes n (.text t)
  | integer {k : Int} (h : n.IsNumeric false (.int k)) : Denotes n (.number (.ofInt k))
  | minus {k : Int} (h : n.IsNumeric true (.int k)) : Denotes n (.number (Double.ofInt k).neg)

/-- A literal of an integer with more digits than are written, or a minus before one. -/
def Overlong (n : Node) : Prop :=
  ∃ minus k, n.IsNumeric minus (.int k) ∧ 10 ^ Number.digitLimit ≤ k.natAbs

variable {n : Node}

/-- What is written for a literal of the program is read as what it stands for. -/
private theorem Denotes.reads {a : Argument} (h : Denotes n a) :
    ∃ t b, n.literalArgument? = some t ∧ ReadsAs t b ∧ a.StrictEq b := by
  cases h with
  | @text t _ h => exact ⟨_,_,Node.literalArgument?_text h,readsAs_quoted t,.text t⟩
  | @integer k h =>
    exact ⟨_,_,Node.literalArgument?_numeric h,readsAs_intText k,.number (Double.numEq_ofInt k)⟩
  | @minus k h =>
    exact ⟨_,_,Node.literalArgument?_numeric h,readsAs_intText (-k),.number (Double.numEq_neg_ofInt k)⟩

/-! ### The arguments of a call -/

/-- Whether an overlong integer comes before everything that is not a plain literal. -/
def Refused (arguments : List Node) : Prop :=
  ∃ before a after, arguments = before ++ a :: after ∧ (∀ b ∈ before, b.IsPlain) ∧ Overlong a

private theorem overlong_iff : Overlong n ↔ ∃ v, n.numericValue? = some v ∧ v.isOverlong = true := by
  constructor
  · rintro ⟨minus,k,h,hk⟩
    refine ⟨_,Node.numericValue?_eq_some_iff.mpr ⟨minus,_,h,rfl⟩,?_⟩
    cases minus <;> simpa [Number.neg, Number.isOverlong] using hk
  · rintro ⟨v,hv,hlong⟩
    obtain ⟨minus,w,h,rfl⟩ := Node.numericValue?_eq_some_iff.mp hv
    cases w with
    | double => cases minus <;> cases hlong
    | int k =>
      refine ⟨minus,k,h,?_⟩
      cases minus <;> simpa [Number.neg, Number.isOverlong] using hlong

private theorem mem_takeWhile_iff {α : Type} {p : α → Bool} {l : List α} {a : α} :
    a ∈ l.takeWhile p ↔
      ∃ before after, l = before ++ a :: after ∧ (∀ b ∈ before, p b = true) ∧ p a = true := by
  constructor
  · intro h
    obtain ⟨before,after,hsplit⟩ := List.append_of_mem h
    have hall : ∀ b ∈ before ++ a :: after, p b = true := fun b hb => List.mem_takeWhile_imp (hsplit ▸ hb)
    refine ⟨before,after ++ l.dropWhile p,?_,fun b hb => hall b (by simp [hb]),hall a (by simp)⟩
    rw [← List.cons_append, ← List.append_assoc, ← hsplit, List.takeWhile_append_dropWhile]
  · rintro ⟨before,after,rfl,hbefore,ha⟩
    rw [List.takeWhile_append_of_pos hbefore, List.takeWhile_cons_of_pos ha]
    simp

private theorem refused_iff {arguments : List Node} :
    Refused arguments ↔
      ∃ a ∈ arguments.takeWhile fun a => a.literalArgument?.isSome, Overlong a := by
  simp only [mem_takeWhile_iff, Node.isSome_literalArgument?_iff, Refused]
  constructor
  · rintro ⟨before,a,after,hsplit,hbefore,hlong⟩
    obtain ⟨minus,k,h,hk⟩ := hlong
    exact ⟨a,⟨before,after,hsplit,hbefore,.number h⟩,minus,k,h,hk⟩
  · rintro ⟨a,⟨before,after,hsplit,hbefore,-⟩,hlong⟩
    exact ⟨before,a,after,hsplit,hbefore,hlong⟩

variable {engine : Engine} {code : Text} {arguments : List Node}

private theorem findSome?_ite {α β : Type} {p : α → Bool} {l : List α} {b e : β} :
    (l.findSome? fun a => if p a then some b else none) = some e ↔ e = b ∧ ∃ a ∈ l, p a = true := by
  induction l with
  | nil => simp
  | cons a l ih =>
    by_cases h : p a = true
    · simpa [h] using eq_comm
    · simp [h, ih]

/-- An overlong integer stops the writing, for one reason. -/
private theorem findSome?_refuses {e : Text} :
    ((arguments.takeWhile fun a => a.literalArgument?.isSome).filterMap Node.numericValue?).findSome?
        (Setup.ofSource engine code).refuses = some e ↔
      e = Text.ofString Number.overlongMessage ∧ Refused arguments := by
  refine findSome?_ite.trans (and_congr_right fun _ => ?_)
  simp only [refused_iff, overlong_iff, List.mem_filterMap]
  constructor
  · rintro ⟨v,⟨a,ha,hav⟩,hlong⟩
    exact ⟨a,ha,v,hav,hlong⟩
  · rintro ⟨a,ha,v,hav,hlong⟩
    exact ⟨v,⟨a,ha,hav⟩,hlong⟩

private theorem reads_literalArguments? {values : List Argument} (h : List.Forall₂ Denotes arguments values) :
    ∃ texts read, Node.literalArguments? arguments = some texts ∧ List.Forall₂ ReadsAs texts read ∧
      List.Forall₂ Argument.StrictEq values read := by
  induction h with
  | nil => exact ⟨[],[],rfl,.nil,.nil⟩
  | cons h _ ih =>
    obtain ⟨t,b,ht,hreads,hequal⟩ := h.reads
    obtain ⟨texts,read,htexts,hmore,hequals⟩ := ih
    refine ⟨t :: texts,b :: read,?_,.cons hreads hmore,.cons hequal hequals⟩
    rw [Node.literalArguments?_cons, ht, htexts]
    rfl

/-- What is written for the arguments of a call. An overlong integer is an error unless something that is
not a plain literal comes before it; else nothing is written just where there is such a thing; and the
text of all others is read as just as many arguments, of the same values. -/
theorem written_arguments (engine : Engine) (code : Text) (arguments : List Node) :
    (∀ e, (Setup.ofSource engine code).written arguments = .error e ↔
      e = Text.ofString Number.overlongMessage ∧ Refused arguments) ∧
    ((Setup.ofSource engine code).written arguments = .ok none ↔
      ¬Refused arguments ∧ ∃ a ∈ arguments, ¬a.IsPlain) ∧
    ∀ values, List.Forall₂ Denotes arguments values → ¬Refused arguments →
      ∃ texts read, (Setup.ofSource engine code).written arguments = .ok (some texts) ∧
        List.Forall₂ Argument.StrictEq values read ∧
        ∀ rest, readArguments (Text.join [44, 32] texts ++ 41 :: rest) = some (read, rest) := by
  have hwritten (h : ¬Refused arguments) :
      (Setup.ofSource engine code).written arguments = .ok (Node.literalArguments? arguments) := by
    simp only [Setup.written]
    split
    · rename_i e he
      exact absurd (findSome?_refuses.mp he).2 h
    · rfl
  have herror (h : Refused arguments) :
      (Setup.ofSource engine code).written arguments = .error (Text.ofString Number.overlongMessage) := by
    simp only [Setup.written]
    rw [findSome?_refuses.mpr ⟨rfl,h⟩]
  by_cases h : Refused arguments
  · refine ⟨fun e => ?_,?_,fun _ _ hnot => absurd h hnot⟩
    · rw [herror h]
      simpa [h] using eq_comm
    · simp [herror h, h]
  · refine ⟨fun e => ?_,?_,fun values hvalues _ => ?_⟩
    · simp [hwritten h, h]
    · simp [hwritten h, h, Node.literalArguments?_eq_none_iff]
    · obtain ⟨texts,read,htexts,hreads,hequal⟩ := reads_literalArguments? hvalues
      exact ⟨texts,read,(hwritten h).trans (congrArg _ htexts),hequal,readArguments_join hreads⟩

def silent : Engine := .ofFunction fun _ => .ok .other

/-- The arguments of `f("\"), x('\\\n", 1152921504606846977, -0)`. -/
def hostile : List Node :=
  [.ofText (Text.ofString "\"), x('\\\n"), .mk (.literal (.number (.int (2 ^ 60 + 1))) none) [],
    .mk (.unaryExpression "-" true) [(.argument, .mk (.literal (.number (.int 0)) none) [])]]

def hostileValues : List Argument :=
  [.text (Text.ofString "\"), x('\\\n"), .number (.ofInt (2 ^ 60 + 1)), .number (Double.ofInt 0).neg]

/-- A literal of 3600 hexadecimal digits, which is a number of 4335 decimal ones. -/
def overlong : Node := .mk (.literal (.number (.int (16 ^ 3600 - 1))) none) []

theorem written_arguments_hostile :
    (∃ texts read, (Setup.ofSource silent []).written hostile = .ok (some texts) ∧
      List.Forall₂ Argument.StrictEq hostileValues read ∧
      ∀ rest, readArguments (Text.join [44, 32] texts ++ 41 :: rest) = some (read, rest)) ∧
    (Setup.ofSource silent []).written [overlong] = .error (Text.ofString Number.overlongMessage) := by
  have hdenotes : List.Forall₂ Denotes hostile hostileValues :=
    .cons (.text rfl) (.cons (.integer (.literal rfl)) (.cons (.minus (.minus rfl rfl rfl)) .nil))
  have hwritten : ¬Refused hostile := fun h => by
    have hsome : ((hostile.takeWhile fun a => a.literalArgument?.isSome).filterMap
        Node.numericValue?).findSome? (Setup.ofSource silent []).refuses = some _ :=
      findSome?_refuses.mpr ⟨rfl,h⟩
    revert hsome
    decide +kernel
  have hrefused : Refused [overlong] :=
    ⟨[],overlong,[],rfl,by simp,false,_,.literal rfl,by decide +kernel⟩
  exact ⟨(written_arguments silent [] hostile).2.2 hostileValues hdenotes hwritten,
    ((written_arguments silent [] [overlong]).1 _).mpr ⟨rfl,hrefused⟩⟩

end Strings

end Unravel
