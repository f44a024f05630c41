import Scriptlet.Proofs.Decimals
import Scriptlet.Tree.Printer

/-! # Written forms

The shape of written trees, apart from what they mean: atoms, quoted texts, and nodes in parentheses,
one blank between neighbours. A form can be told from its text, and also from a longer text that goes
on with a blank or a closing parenthesis, which is what follows a form inside of another one.
-/
namespace Scriptlet

open Segment (quote)

/-- What a node can begin with. -/
inductive Head where
  | symbol (s : Symbol)
  | keyword (k : Keyword)
  | group
  | call
  | block
  | ifElse
  deriving DecidableEq, Repr

def Head.text : Head → Bytes
  | .symbol s => s.text
  | .keyword k => k.text
  | .group => utf8 "group"
  | .call => utf8 "call"
  | .block => utf8 "block"
  | .ifElse => utf8 "if-else"

/-- What is written in one piece. -/
inductive Atom where
  | symbol (s : Symbol)
  | keyword (k : Keyword)
  | name (text : Bytes)
  | integer (n : Int)
  | float (f : Float)
  deriving DecidableEq, Repr

def Atom.text : Atom → Bytes
  | .symbol s => s.text
  | .keyword k => k.text
  | .name text => text
  | .integer n => signedDecimal n
  | .float f => floatText f

/-- A written tree. A signature is a name and, right behind it, names in parentheses. -/
inductive Form where
  | atom (a : Atom)
  | quoted (text : Bytes)
  | node (head : Head) (items : List Form)
  | signature (name : Bytes) (params : List Bytes)

mutual

def Form.text : Form → Bytes
  | .atom a => a.text
  | .quoted text => quote :: (text ++ [quote])
  | .node head items => parenthesized (head.text :: Form.texts items)
  | .signature name params => name ++ parenthesized params

def Form.texts : List Form → List Bytes
  | [] => []
  | f :: rest => f.text :: Form.texts rest

end

/-! ## What forms are made of -/

/-- The symbols that are written on their own are no parentheses. -/
def Symbol.IsOperator (s : Symbol) : Prop := s ≠ .leftParen ∧ s ≠ .rightParen

/-- Numbers are not negative, and names are names of the language. -/
def Atom.IsFine : Atom → Prop
  | .symbol s => s.IsOperator
  | .keyword _ => True
  | .name text => Lexeme .identifier text
  | .integer n => 0 ≤ n
  | .float f => IsMagnitude f

def Head.IsFine : Head → Prop
  | .symbol s => s.IsOperator
  | _ => True

mutual

def Form.IsFine : Form → Prop
  | .atom a => a.IsFine
  | .quoted text => quote ∉ text
  | .node head items => head.IsFine ∧ Form.AllFine items
  | .signature name params => Lexeme .identifier name ∧ ∀ p ∈ params, Lexeme .identifier p

def Form.AllFine : List Form → Prop
  | [] => True
  | f :: rest => f.IsFine ∧ Form.AllFine rest

end

/-! ## Units

The bytes that hold forms together are in no atom, so an atom ends where one of them follows. -/

def isJoint (b : UInt8) : Bool := [0x20,0x28,0x29,quote].contains b

/-- A text of one piece. -/
def IsUnit (text : Bytes) : Prop := text ≠ [] ∧ ∀ b ∈ text, isJoint b = false

section

variable {text text' rest rest' : Bytes} {b : UInt8}

theorem isJoint_of_isWordByte (h : isWordByte b = true) : isJoint b = false := by
  unfold isWordByte isLetter isDigit at h
  unfold isJoint quote
  simp only [List.contains_cons,List.contains_nil]
  grind

theorem IsDigits.isUnit (h : IsDigits text) : IsUnit text :=
  ⟨h.1,fun b hb => isJoint_of_isWordByte (by simp [isWordByte,h.2 b hb])⟩

theorem IsWord.isUnit (h : IsWord text) : IsUnit text := by
  obtain ⟨b,rest,rfl,hb,hrest⟩ := h
  have hfirst : isWordByte b = true := by simp [isWordByte,hb]
  have hbytes : ∀ c ∈ b :: rest, isWordByte c = true := List.forall_mem_cons.2 ⟨hfirst,hrest⟩
  exact ⟨List.cons_ne_nil b rest,fun c hc => isJoint_of_isWordByte (hbytes c hc)⟩

theorem IsDecimal.isUnit {value : ℚ} (h : IsDecimal text value) : IsUnit text := by
  obtain ⟨whole,fraction,hwhole,hfraction,rfl,-⟩ := h
  constructor
  · simp
  · intro b hb
    rcases List.mem_append.1 hb with hb | hb
    · exact hwhole.isUnit.2 b hb
    rcases List.mem_cons.1 hb with rfl | hb
    · decide
    · exact hfraction.isUnit.2 b hb

theorem Lexeme.isWord (h : Lexeme .identifier text) : IsWord text := by
  cases h with
  | identifier hword _ => exact hword

theorem Symbol.IsOperator.isUnit {s : Symbol} (h : s.IsOperator) : IsUnit s.text := by
  cases s
  case leftParen => exact absurd rfl h.1
  case rightParen => exact absurd rfl h.2
  all_goals exact ⟨by decide,by decide +kernel⟩

theorem signedDecimal_of_nonneg {n : Int} (h : 0 ≤ n) : signedDecimal n = decimal n.natAbs :=
  if_neg (Int.not_lt.2 h)

theorem Atom.IsFine.isUnit {a : Atom} (h : a.IsFine) : IsUnit a.text := by
  cases a with
  | symbol s => exact Symbol.IsOperator.isUnit h
  | keyword k => exact k.isWord_text.isUnit
  | name text => exact (Lexeme.isWord h).isUnit
  | integer n =>
    rw [text,signedDecimal_of_nonneg h]
    exact (isDigits_decimal _).isUnit
  | float f =>
    obtain ⟨x,hdecimal,-⟩ := h.exists_decimal
    exact hdecimal.isUnit

theorem Head.IsFine.isUnit {head : Head} (h : head.IsFine) : IsUnit head.text := by
  cases head with
  | symbol s => exact Symbol.IsOperator.isUnit h
  | keyword k => exact k.isWord_text.isUnit
  | _ => exact ⟨by decide,by decide +kernel⟩

/-- The unit at the front of a text, if there is one, and the byte behind it. -/
def opening (text : Bytes) : Bytes × Option UInt8 :=
  (text.takeWhile (!isJoint ·),(text.dropWhile (!isJoint ·)).head?)

theorem opening_joint (h : isJoint b = true) (rest : Bytes) : opening (b :: rest) = ([],some b) := by
  simp [opening,h]

theorem IsUnit.no_joint (h : IsUnit text) : ∀ c ∈ text, (!isJoint c) = true :=
  fun c hc => by simp [h.2 c hc]

theorem opening_unit (h : IsUnit text) (hrest : ∀ c ∈ rest.head?, isJoint c = true) :
    opening (text ++ rest) = (text,rest.head?) := by
  have hout : ∀ c ∈ rest.head?, (!isJoint c) = false := fun c hc => by simp [hrest c hc]
  rw [opening,takeWhile_exact h.no_joint hout,dropWhile_exact h.no_joint hout]

theorem IsUnit.append_inj (h : IsUnit text) (h' : IsUnit text')
    (hrest : ∀ c ∈ rest.head?, isJoint c = true) (hrest' : ∀ c ∈ rest'.head?, isJoint c = true)
    (heq : text ++ rest = text' ++ rest') : text = text' ∧ rest = rest' :=
  append_inj_of_run h.no_joint h'.no_joint (fun c hc => by simp [hrest c hc])
    (fun c hc => by simp [hrest' c hc]) heq

end

/-! ## Heads and atoms are told by their texts -/

def Symbol.all : List Symbol :=
  [.leftParen,.rightParen,.leftBrace,.rightBrace,.comma,.dot,.minus,.plus,.semicolon,.slash,.star,
    .bang,.bangEqual,.equal,.equalEqual,.greater,.greaterEqual,.less,.lessEqual]

def Head.all : List Head :=
  Symbol.all.map Head.symbol ++ Keyword.all.map Head.keyword ++
    [Head.group,Head.call,Head.block,Head.ifElse]

theorem Head.find?_text (head : Head) : Head.all.find? (·.text == head.text) = some head := by
  cases head with
  | symbol s => cases s <;> rfl
  | keyword k => cases k <;> rfl
  | _ => rfl

theorem Head.text_inj {head head' : Head} (h : head.text = head'.text) : head = head' := by
  have hfind := find?_text head
  rw [h,find?_text head'] at hfind
  exact (Option.some.inj hfind).symm

/-- Whether an atom starts with a letter, and whether with a digit. -/
def Atom.start : Atom → Bool × Bool
  | .symbol _ => (false,false)
  | .keyword _ | .name _ => (true,false)
  | .integer _ | .float _ => (false,true)

theorem Atom.IsFine.cons {a : Atom} (h : a.IsFine) :
    ∃ b rest, a.text = b :: rest ∧ (isLetter b,isDigit b) = a.start := by
  have hword : ∀ {text : Bytes}, IsWord text →
      ∃ b rest, text = b :: rest ∧ (isLetter b,isDigit b) = (true,false) := by
    rintro text ⟨b,rest,rfl,hb,-⟩
    exact ⟨b,rest,rfl,by rw [hb,isDigit_of_isLetter hb]⟩
  have hnumeral : ∀ {text : Bytes}, IsNumeral text →
      ∃ b rest, text = b :: rest ∧ (isLetter b,isDigit b) = (false,true) := by
    intro text htext
    obtain ⟨b,rest,rfl,hb⟩ := htext.cons
    have hletter : isLetter b = false := by
      by_contra hletter
      rw [isDigit_of_isLetter (by simpa using hletter)] at hb
      cases hb
    exact ⟨b,rest,rfl,by rw [hb,hletter]⟩
  cases a with
  | symbol s =>
    obtain ⟨b,rest,htext,hsign⟩ := s.text_cons
    simp only [isSign,Bool.and_eq_true,Bool.not_eq_true'] at hsign
    exact ⟨b,rest,htext,by rw [hsign.1.2,hsign.2]; rfl⟩
  | keyword k => exact hword k.isWord_text
  | name text => exact hword (Lexeme.isWord h)
  | integer n =>
    rw [text,signedDecimal_of_nonneg h]
    exact hnumeral (.whole (isDigits_decimal _))
  | float f =>
    obtain ⟨x,⟨whole,fraction,hwhole,hfraction,htext,-⟩,-⟩ := h.exists_decimal
    rw [text,htext]
    exact hnumeral (.fractional hwhole hfraction)

theorem Atom.start_eq {a a' : Atom} (ha : a.IsFine) (ha' : a'.IsFine) (h : a.text = a'.text) :
    a.start = a'.start := by
  obtain ⟨b,rest,htext,hstart⟩ := ha.cons
  obtain ⟨b',rest',htext',hstart'⟩ := ha'.cons
  rw [htext,htext'] at h
  obtain ⟨rfl,-⟩ := List.cons.inj h
  exact hstart.symm.trans hstart'

theorem signedDecimal_ne_floatText {n : Int} {f : Float} (hn : 0 ≤ n) (hf : IsMagnitude f) :
    signedDecimal n ≠ floatText f := by
  intro h
  obtain ⟨x,⟨whole,fraction,-,-,htext,-⟩,-⟩ := hf.exists_decimal
  apply not_isDigits_fractional whole fraction
  rw [← htext,← h,signedDecimal_of_nonneg hn]
  exact isDigits_decimal _

theorem signedDecimal_inj {n n' : Int} (hn : 0 ≤ n) (hn' : 0 ≤ n')
    (h : signedDecimal n = signedDecimal n') : n = n' := by
  rw [signedDecimal_of_nonneg hn,signedDecimal_of_nonneg hn'] at h
  have hvalue := congrArg digitsValue h
  rw [digitsValue_decimal,digitsValue_decimal] at hvalue
  omega

theorem Lexeme.ne_keyword {text : Bytes} (h : Lexeme .identifier text) (k : Keyword) :
    text ≠ k.text := by
  cases h with
  | identifier _ hkeyword => exact hkeyword k

theorem Atom.text_inj {a a' : Atom} (ha : a.IsFine) (ha' : a'.IsFine) (h : a.text = a'.text) :
    a = a' := by
  have hstart := start_eq ha ha' h
  cases a with
  | symbol s =>
    cases a' with
    | symbol s' =>
      cases @Head.text_inj (.symbol s) (.symbol s') h
      rfl
    | _ => cases hstart
  | keyword k =>
    cases a' with
    | keyword k' =>
      cases @Head.text_inj (.keyword k) (.keyword k') h
      rfl
    | name text' => exact absurd h.symm (Lexeme.ne_keyword ha' k)
    | _ => cases hstart
  | name text =>
    cases a' with
    | keyword k' => exact absurd h (Lexeme.ne_keyword ha k')
    | name text' => exact congrArg Atom.name h
    | _ => cases hstart
  | integer n =>
    cases a' with
    | integer n' => exact congrArg Atom.integer (signedDecimal_inj ha ha' h)
    | float f' => exact absurd h (signedDecimal_ne_floatText ha ha')
    | _ => cases hstart
  | float f =>
    cases a' with
    | integer n' => exact absurd h.symm (signedDecimal_ne_floatText ha' ha)
    | float f' => exact congrArg Atom.float (floatText_inj ha ha' h)
    | _ => cases hstart

/-! ## Forms are told by their texts -/

/-- What can follow a form: nothing, the next form or the end of a node. -/
def Ends (rest : Bytes) : Prop := ∀ b ∈ rest.head?, b = 0x20 ∨ b = 0x29

/-- Texts with a blank in front of each. -/
def spaced (texts : List Bytes) : Bytes := texts.flatMap (0x20 :: ·)

theorem joinWith_cons (text : Bytes) (texts : List Bytes) :
    joinWith [0x20] (text :: texts) = text ++ spaced texts := by
  induction texts generalizing text with
  | nil => simp [joinWith,spaced]
  | cons next texts ih =>
    have hjoin : joinWith [0x20] (text :: next :: texts) =
        text ++ ([0x20] ++ joinWith [0x20] (next :: texts)) := by
      simp [joinWith,List.intercalate]
    rw [hjoin,ih]
    simp [spaced]

section

variable {rest rest' : Bytes}

theorem ends_nil : Ends [] := by simp [Ends]

theorem Ends.isJoint (h : Ends rest) : ∀ b ∈ rest.head?, isJoint b = true := by
  intro b hb
  rcases h b hb with rfl | rfl
  · decide
  · decide

theorem ends_spaced (texts : List Bytes) (rest : Bytes) : Ends (spaced texts ++ 0x29 :: rest) := by
  intro b hb
  cases texts with
  | nil => exact .inr (Option.some.inj hb).symm
  | cons text texts => exact .inl (Option.some.inj hb).symm

/-- Units with blanks in front of them, up to a closing parenthesis. -/
theorem spaced_inj {units units' : List Bytes} (hunits : ∀ u ∈ units, IsUnit u)
    (hunits' : ∀ u ∈ units', IsUnit u)
    (h : spaced units ++ 0x29 :: rest = spaced units' ++ 0x29 :: rest') :
    units = units' ∧ rest = rest' := by
  induction units generalizing units' with
  | nil =>
    cases units' with
    | nil => exact ⟨rfl,(List.cons.inj h).2⟩
    | cons u units' => exact absurd (List.cons.inj h).1 (by decide)
  | cons u units ih =>
    obtain ⟨hu,hunits⟩ := List.forall_mem_cons.1 hunits
    cases units' with
    | nil => exact absurd (List.cons.inj h).1 (by decide)
    | cons u' units' =>
      obtain ⟨hu',hunits'⟩ := List.forall_mem_cons.1 hunits'
      have htail : u ++ (spaced units ++ 0x29 :: rest) = u' ++ (spaced units' ++ 0x29 :: rest') := by
        simpa [spaced] using h
      have hsplit := hu.append_inj hu' (ends_spaced _ _).isJoint (ends_spaced _ _).isJoint htail
      obtain ⟨rfl,hrest⟩ := ih hunits hunits' hsplit.2
      exact ⟨by rw [hsplit.1],hrest⟩

/-- Units in parentheses. -/
theorem parenthesized_inj {units units' : List Bytes} (hunits : ∀ u ∈ units, IsUnit u)
    (hunits' : ∀ u ∈ units', IsUnit u)
    (h : parenthesized units ++ rest = parenthesized units' ++ rest') :
    units = units' ∧ rest = rest' := by
  have hjoined : joinWith [0x20] units ++ 0x29 :: rest = joinWith [0x20] units' ++ 0x29 :: rest' := by
    simpa [parenthesized] using h
  -- A unit does not begin with the parenthesis at once.
  have hempty : ∀ {u : Bytes} {texts : List Bytes} {more more' : Bytes}, IsUnit u →
      0x29 :: more ≠ u ++ spaced texts ++ 0x29 :: more' := by
    intro u texts more more' hu heq
    have hopening := congrArg (fun t => (opening t).1) heq
    simp only [List.append_assoc,opening_unit hu (ends_spaced texts more').isJoint,
      opening_joint (by decide : isJoint 0x29 = true)] at hopening
    exact hu.1 hopening.symm
  cases units with
  | nil =>
    cases units' with
    | nil => exact ⟨rfl,(List.cons.inj hjoined).2⟩
    | cons u' units' =>
      rw [joinWith_cons] at hjoined
      exact absurd hjoined (hempty (hunits' u' List.mem_cons_self))
  | cons u units =>
    rw [joinWith_cons] at hjoined
    cases units' with
    | nil => exact absurd hjoined.symm (hempty (hunits u List.mem_cons_self))
    | cons u' units' =>
      rw [joinWith_cons] at hjoined
      exact spaced_inj hunits hunits' (congrArg (0x20 :: ·) hjoined)

/-- Whether a form begins with a unit, and whether its first parenthesis comes next to it. -/
def Form.shape : Form → Bool × Bool
  | .atom _ => (true,false)
  | .quoted _ => (false,false)
  | .node _ _ => (false,true)
  | .signature _ _ => (true,true)

theorem Form.opening_shape {f : Form} (h : f.IsFine) (hrest : Ends rest) :
    ((opening (f.text ++ rest)).1 != [],(opening (f.text ++ rest)).2 == some 0x28) = f.shape := by
  cases f with
  | atom a =>
    have hunit : IsUnit a.text := Atom.IsFine.isUnit h
    have hopen : rest.head? ≠ some 0x28 := by
      intro hhead
      rcases hrest _ hhead with hb | hb <;> cases hb
    rw [text,opening_unit hunit hrest.isJoint]
    simp [shape,hunit.1,hopen]
  | quoted text =>
    rw [Form.text,List.cons_append,opening_joint (by decide)]
    rfl
  | node head items =>
    rw [text,parenthesized,List.cons_append,opening_joint (by decide)]
    rfl
  | signature name params =>
    have hunit : IsUnit name := (Lexeme.isWord h.1).isUnit
    rw [text,parenthesized,List.append_assoc,List.cons_append,opening_unit hunit]
    · simp [shape,hunit.1]
    · intro c hc
      cases hc
      decide

theorem Form.shape_eq {f f' : Form} (hf : f.IsFine) (hf' : f'.IsFine) (hrest : Ends rest)
    (hrest' : Ends rest') (h : f.text ++ rest = f'.text ++ rest') : f.shape = f'.shape := by
  rw [← opening_shape hf hrest,h,opening_shape hf' hrest']

theorem quoted_inj {text text' : Bytes} (htext : quote ∉ text) (htext' : quote ∉ text')
    (h : text ++ quote :: rest = text' ++ quote :: rest') : text = text' ∧ rest = rest' := by
  have hhead : ∀ more : Bytes, ∀ c ∈ (quote :: more).head?, (c != quote) = false := by
    intro more c hc
    cases hc
    rfl
  have hsplit := append_inj_of_run (bne_of_not_mem htext) (bne_of_not_mem htext') (hhead rest)
    (hhead rest') h
  exact ⟨hsplit.1,(List.cons.inj hsplit.2).2⟩

end

mutual

/-- A form can be read off a text that goes on behind it. -/
theorem Form.text_inj {f f' : Form} {rest rest' : Bytes} (hf : f.IsFine) (hf' : f'.IsFine)
    (hrest : Ends rest) (hrest' : Ends rest') (h : f.text ++ rest = f'.text ++ rest') :
    f = f' ∧ rest = rest' := by
  have hshape := Form.shape_eq hf hf' hrest hrest' h
  cases f with
  | atom a =>
    cases f' with
    | atom a' =>
      have hsplit := (Atom.IsFine.isUnit hf).append_inj (Atom.IsFine.isUnit hf') hrest.isJoint
        hrest'.isJoint h
      exact ⟨congrArg Form.atom (Atom.text_inj hf hf' hsplit.1),hsplit.2⟩
    | _ => cases hshape
  | quoted text =>
    cases f' with
    | quoted text' =>
      have hbody : text ++ quote :: rest = text' ++ quote :: rest' := by simpa [Form.text] using h
      obtain ⟨rfl,rfl⟩ := quoted_inj hf hf' hbody
      exact ⟨rfl,rfl⟩
    | _ => cases hshape
  | node head items =>
    cases f' with
    | node head' items' =>
      obtain ⟨hhead,hitems⟩ := hf
      obtain ⟨hhead',hitems'⟩ := hf'
      have hbody : head.text ++ (spaced (Form.texts items) ++ 0x29 :: rest) =
          head'.text ++ (spaced (Form.texts items') ++ 0x29 :: rest') := by
        simpa [Form.text,parenthesized,joinWith_cons] using h
      have hsplit := hhead.isUnit.append_inj hhead'.isUnit (ends_spaced _ _).isJoint
        (ends_spaced _ _).isJoint hbody
      obtain ⟨rfl,rfl⟩ := Form.spaced_texts_inj hitems hitems' hsplit.2
      exact ⟨by rw [Head.text_inj hsplit.1],rfl⟩
    | _ => cases hshape
  | signature name params =>
    cases f' with
    | signature name' params' =>
      have hunits : ∀ {names : List Bytes}, (∀ p ∈ names, Lexeme .identifier p) →
          ∀ p ∈ names, IsUnit p := fun hnames p hp => (Lexeme.isWord (hnames p hp)).isUnit
      have hparen : ∀ (names : List Bytes) (more : Bytes),
          ∀ c ∈ (parenthesized names ++ more).head?, isJoint c = true := by
        intro names more c hc
        cases hc
        decide
      have hbody : name ++ (parenthesized params ++ rest) =
          name' ++ (parenthesized params' ++ rest') := by
        simpa [Form.text] using h
      have hsplit := (Lexeme.isWord hf.1).isUnit.append_inj (Lexeme.isWord hf'.1).isUnit
        (hparen params rest) (hparen params' rest') hbody
      obtain ⟨rfl,rfl⟩ := parenthesized_inj (hunits hf.2) (hunits hf'.2) hsplit.2
      exact ⟨by rw [hsplit.1],rfl⟩
    | _ => cases hshape

/-- The items of a node, up to its closing parenthesis. -/
theorem Form.spaced_texts_inj {fs fs' : List Form} {rest rest' : Bytes} (hfs : Form.AllFine fs)
    (hfs' : Form.AllFine fs')
    (h : spaced (Form.texts fs) ++ 0x29 :: rest = spaced (Form.texts fs') ++ 0x29 :: rest') :
    fs = fs' ∧ rest = rest' := by
  cases fs with
  | nil =>
    cases fs' with
    | nil => exact ⟨rfl,(List.cons.inj h).2⟩
    | cons f' fs' => exact absurd (List.cons.inj h).1 (by decide)
  | cons f fs =>
    cases fs' with
    | nil => exact absurd (List.cons.inj h).1 (by decide)
    | cons f' fs' =>
      have hbody : f.text ++ (spaced (Form.texts fs) ++ 0x29 :: rest) =
          f'.text ++ (spaced (Form.texts fs') ++ 0x29 :: rest') := by
        simpa [spaced,Form.texts] using h
      have hfirst := Form.text_inj hfs.1 hfs'.1 (ends_spaced _ _) (ends_spaced _ _) hbody
      have htail := Form.spaced_texts_inj hfs.2 hfs'.2 hfirst.2
      exact ⟨by rw [hfirst.1,htail.1],htail.2⟩

end

end Scriptlet
