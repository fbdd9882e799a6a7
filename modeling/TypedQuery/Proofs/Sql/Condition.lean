import TypedQuery.Proofs.Sql.Placeholders
import TypedQuery.Proofs.Sql.Precedence

/-!
# The text of conditions

A text is cut into words at blanks and parentheses, and words that are neither operators nor part
of a test for NULL are leaves. A tree is written with parentheses around arithmetic and around
the operands of connectives. So it is read back exactly when the operands of comparisons and of
arithmetic are delimited by themselves.
-/

namespace TypedQuery.Sql

open TypedQuery.Sql.Fragment

/-- A word or a parenthesis of a text. -/
inductive Lexeme where
  | lparen
  | rparen
  | word (s : String)
deriving DecidableEq

/-- A character that ends a word. -/
def isBreak (c : Char) : Bool := c == ' ' || c == '(' || c == ')'

/-- No character ends the text as a word. -/
def isUnbroken (s : String) : Bool := s.toList.all fun c => !isBreak c

/-- A dot or a digit, which no operator and no keyword has. -/
def isMark (c : Char) : Bool := c == '.' || c.isDigit

theorem isUnbroken_iff {s : String} : isUnbroken s = true ↔ ∀ c ∈ s.toList, isBreak c = false := by
  simp [isUnbroken]

theorem isBreak_of_isPart {c : Char} (h : Identifier.isPart c = true) : isBreak c = false := by
  cases hbreak : isBreak c with
  | false => rfl
  | true =>
      simp only [isBreak, Bool.or_eq_true, beq_iff_eq] at hbreak
      rcases hbreak with (rfl | rfl) | rfl <;> cases h

theorem isUnbroken_of_isPlain {s : String} (h : Naming.isPlain s = true) : isUnbroken s = true :=
  isUnbroken_iff.2 fun c hc => isBreak_of_isPart (IsWord.of_isPlain h c hc)

theorem isUnbroken_append {s t : String} (hs : isUnbroken s = true) (ht : isUnbroken t = true) :
    isUnbroken (s ++ t) = true := by
  rw [isUnbroken] at hs ht ⊢
  rw [String.toList_append, List.all_append, hs, ht, Bool.and_self]

namespace Lexeme

/-- What a character that ends a word is itself. -/
def ofBreak (c : Char) : List Lexeme :=
  if c = '(' then [lparen] else if c = ')' then [rparen] else []

/-- The word made of some characters, if there are any. -/
def ofWord (cs : List Char) : List Lexeme := if cs = [] then [] else [word (String.ofList cs)]

/-- The lexemes of a text of which the characters of a word are read already. -/
def ofTextFrom (before : List Char) : List Char → List Lexeme
  | [] => ofWord before
  | c :: cs =>
    if isBreak c then ofWord before ++ (ofBreak c ++ ofTextFrom [] cs)
    else ofTextFrom (before ++ [c]) cs

def ofText (cs : List Char) : List Lexeme := ofTextFrom [] cs

theorem ofText_append {c : Char} (h : isBreak c = true) (cs ds : List Char) :
    ofText (cs ++ c :: ds) = ofText cs ++ (ofBreak c ++ ofText ds) := by
  suffices ∀ before, ofTextFrom before (cs ++ c :: ds) =
      ofTextFrom before cs ++ (ofBreak c ++ ofText ds) from this []
  induction cs with
  | nil =>
      intro before
      simp [ofTextFrom, h, ofText]
  | cons d cs ih =>
      intro before
      rw [List.cons_append, ofTextFrom, ofTextFrom]
      split
      · rw [ih, List.append_assoc, List.append_assoc]
      · exact ih _

theorem ofText_word {cs : List Char} (h : ∀ c ∈ cs, isBreak c = false) (hne : cs ≠ []) :
    ofText cs = [word (String.ofList cs)] := by
  suffices ∀ before, ofTextFrom before cs = ofWord (before ++ cs) by
    rw [ofText, this, List.nil_append, ofWord, if_neg hne]
  clear hne
  induction cs with
  | nil => simp [ofTextFrom]
  | cons c cs ih =>
      intro before
      obtain ⟨hc, hcs⟩ := List.forall_mem_cons.1 h
      rw [ofTextFrom, if_neg (by simp [hc]), ih hcs, List.append_assoc, List.singleton_append]

end Lexeme

namespace Operator

def symbol : Operator → String
  | binary op => op.symbol
  | connective op => op.symbol

def all : List Operator :=
  [.eq, .ne, .gt, .gte, .lt, .lte, .add, .sub, .mul, .div, .rem, .bitAnd, .bitOr, .bitXor,
    .shiftLeft, .shiftRight].map binary ++ [.and, .or].map connective

def ofWord? (s : String) : Option Operator := all.find? (·.symbol == s)

theorem ofWord?_symbol (o : Operator) : ofWord? o.symbol = some o := by
  cases o with
  | binary op => cases op <;> decide
  | connective op => cases op <;> decide

end Operator

namespace Symbol

/-- A word by itself. -/
def ofWord (s : String) : Symbol String :=
  match Operator.ofWord? s with
  | some o => .operator o
  | none => .leaf s

/-- The symbols of a text; the words of a test for NULL are one symbol. -/
def ofLexemes : List Lexeme → List (Symbol String)
  | [] => []
  | .lparen :: ls => .lparen :: ofLexemes ls
  | .rparen :: ls => .rparen :: ofLexemes ls
  | .word "IS" :: .word "NULL" :: ls => .test false :: ofLexemes ls
  | .word "IS" :: .word "NOT" :: .word "NULL" :: ls => .test true :: ofLexemes ls
  | .word s :: ls => ofWord s :: ofLexemes ls

theorem ofLexemes_word {s : String} (h : s ≠ "IS") (ls : List Lexeme) :
    ofLexemes (.word s :: ls) = ofWord s :: ofLexemes ls := by
  rw [ofLexemes]
  · exact fun _ _ hs => h hs
  · exact fun _ _ hs => h hs

theorem ofLexemes_operator (o : Operator) (ls : List Lexeme) :
    ofLexemes (.word o.symbol :: ls) = .operator o :: ofLexemes ls := by
  have hword : o.symbol ≠ "IS" := by
    cases o with
    | binary op => cases op <;> decide
    | connective op => cases op <;> decide
  rw [ofLexemes_word hword, ofWord, Operator.ofWord?_symbol]

end Symbol

/-- The tree that the text of a condition is read as. -/
def readCondition (sql : String) : Option (Tree String) :=
  readSymbols (Symbol.ofLexemes (Lexeme.ofText sql.toList))

/-- A word that is neither an operator nor the first one of a test. -/
structure IsLeafWord (s : String) : Prop where
  nonempty : s ≠ ""
  whole : isUnbroken s = true
  noOperator : Operator.ofWord? s = none
  noTest : s ≠ "IS"

namespace IsLeafWord

theorem of_isMark {s : String} (whole : isUnbroken s = true) {c : Char} (hc : c ∈ s.toList)
    (mark : isMark c = true) : IsLeafWord s := by
  have marked : s.toList.any isMark = true := List.any_eq_true.2 ⟨c, hc, mark⟩
  refine ⟨?_, whole, ?_, ?_⟩
  · rintro rfl
    simp at hc
  · refine List.find?_eq_none.2 fun o ho hs => ?_
    have unmarked : ∀ o ∈ Operator.all, o.symbol.toList.any isMark = false := by decide
    obtain rfl : o.symbol = s := by simpa using hs
    rw [unmarked o ho] at marked
    cases marked
  · rintro rfl
    cases marked

end IsLeafWord

/-- A test after a connective takes only the operand that it stands behind. -/
example : readCondition "(a.x = a.y) AND (a.y = a.z) IS NULL" =
    some (.node (.connective .and) (.node (.binary .eq) (.leaf "a.x") (.leaf "a.y"))
      (.test false (.node (.binary .eq) (.leaf "a.y") (.leaf "a.z")))) := by
  decide +kernel

namespace Fragment

theorem text_append (f g : Fragment) : text (f ++ g) = text f ++ text g := by
  simp [text]

theorem text_cons (t : Token) (f : Fragment) : text (t :: f) = t.text ++ text f := by
  simp [text]

/-- The text of the fragment has the symbols of the layout, whatever comes behind. -/
def Spells (f : Fragment) (c : Layout String) : Prop :=
  ∀ ls, Symbol.ofLexemes (Lexeme.ofText f.text.toList ++ ls) = c.symbols ++ Symbol.ofLexemes ls

namespace Spells

open Sql.Symbol

variable {f g : Fragment} {c d : Layout String}

theorem leaf {t : Token} (h : IsLeafWord t.text) : Spells [t] (.leaf t.text) := by
  intro ls
  have hne : t.text.toList ≠ [] := by simpa using h.nonempty
  have hword : ofWord t.text = .leaf t.text := by rw [ofWord, h.noOperator]
  rw [text_cons, text_nil, String.append_empty, Lexeme.ofText_word (isUnbroken_iff.1 h.whole) hne,
    String.ofList_toList, List.singleton_append, ofLexemes_word h.noTest, hword]
  rfl

theorem parens (h : Spells f c) : Spells (parens f) (.parens c) := by
  intro ls
  have htext : (Fragment.parens f).text.toList = [] ++ '(' :: (f.text.toList ++ ')' :: []) := by
    simp [Fragment.parens, text_cons, text_append, Token.text]
  have hlparen : Lexeme.ofBreak '(' = [.lparen] := rfl
  have hrparen : Lexeme.ofBreak ')' = [.rparen] := rfl
  have hempty : Lexeme.ofText [] = [] := rfl
  rw [htext, Lexeme.ofText_append rfl, Lexeme.ofText_append rfl, hlparen, hrparen, hempty]
  simp only [List.nil_append, List.append_nil, List.cons_append, List.append_assoc, ofLexemes]
  rw [h, ofLexemes]
  simp [Layout.symbols]

/-- Two operands around an operator, with blanks between them. -/
theorem around {t : Token} {o : Operator} (ht : t.text = o.symbol)
    (whole : isUnbroken o.symbol = true) (hne : o.symbol ≠ "")
    (hf : Spells f c) (hg : Spells g d) : Spells (around f t g) (.node o c d) := by
  intro ls
  have htext : (Fragment.around f t g).text.toList =
      f.text.toList ++ ' ' :: (o.symbol.toList ++ ' ' :: g.text.toList) := by
    have hspace : Token.space.text = " " := rfl
    simp [Fragment.around, text_cons, text_append, hspace, ht]
  have hblank : Lexeme.ofBreak ' ' = [] := rfl
  rw [htext, Lexeme.ofText_append rfl, Lexeme.ofText_append rfl, hblank,
    Lexeme.ofText_word (isUnbroken_iff.1 whole) (by simpa using hne), String.ofList_toList]
  simp only [List.nil_append, List.cons_append, List.append_assoc]
  rw [hf, ofLexemes_operator, hg]
  simp [Layout.symbols]

theorem around_operator (op : BinaryOp) (hf : Spells f c) (hg : Spells g d) :
    Spells (Fragment.around f (.operator op) g) (.node (.binary op) c d) := by
  refine around rfl ?_ ?_ hf hg
  · cases op <;> decide
  · cases op <;> decide

theorem around_connective (op : Connective) (hf : Spells f c) (hg : Spells g d) :
    Spells (Fragment.around f (.connective op) g) (.node (.connective op) c d) := by
  refine around rfl ?_ ?_ hf hg
  · cases op <;> decide
  · cases op <;> decide

/-- Is the test one for NULL or for the contrary? -/
theorem test {op : BinaryOp} {word : String} (h : nullTest? op = some word) (hf : Spells f c) :
    Spells (f ++ [.space, .keyword word]) (.test (op == .ne) c) := by
  intro ls
  have htext :
      (text (f ++ [.space, .keyword word])).toList = f.text.toList ++ ' ' :: word.toList := by
    simp [text_append, text_cons, Token.text]
  have hblank : Lexeme.ofBreak ' ' = [] := rfl
  rw [htext, Lexeme.ofText_append rfl, hblank, List.nil_append, List.append_assoc, hf]
  have hwords :
      ofLexemes (Lexeme.ofText word.toList ++ ls) = .test (op == .ne) :: ofLexemes ls := by
    cases op <;> cases h <;> rfl
  rw [hwords]
  simp [Layout.symbols]

/-- The text is read as its symbols are. -/
theorem readCondition (h : Spells f c) : readCondition f.text = readSymbols c.symbols := by
  have hsymbols := h []
  rw [List.append_nil, ofLexemes, List.append_nil] at hsymbols
  rw [Sql.readCondition, hsymbols]

end Spells

end Fragment

namespace Tree

variable {α β : Type}

/-- The tree as it is written: arithmetic and the operands of connectives are in parentheses. -/
def layout : Tree α → Layout α
  | leaf a => .leaf a
  | test negated t => .test negated t.layout
  | node (.binary op) l r =>
    if op.isComparison then .node (.binary op) l.layout r.layout
    else .parens (.node (.binary op) l.layout r.layout)
  | node (.connective op) l r => .node (.connective op) (.parens l.layout) (.parens r.layout)

@[simp] theorem tree_layout (t : Tree α) : t.layout.tree = t := by
  induction t with
  | leaf a => rfl
  | test negated t ih => simp [layout, Layout.tree, ih]
  | node o l r ihl ihr =>
      cases o with
      | binary op =>
          rw [layout]
          split <;> simp [Layout.tree, ihl, ihr]
      | connective op => simp [layout, Layout.tree, ihl, ihr]

def isConnected : Tree α → Bool
  | node (.connective _) _ _ => true
  | _ => false

def isComparison : Tree α → Bool
  | node (.binary op) _ _ => op.isComparison
  | _ => false

def isTest : Tree α → Bool
  | test _ _ => true
  | _ => false

/-- The operands of comparisons and of arithmetic are told from what is around them: no operand
is a comparison or has a connective, and the right one is no test. The operand of a test has no
connective. -/
def Delimited : Tree α → Prop
  | leaf _ => True
  | test _ t => t.Delimited ∧ t.isConnected = false
  | node (.connective _) l r => l.Delimited ∧ r.Delimited
  | node (.binary _) l r =>
    l.Delimited ∧ r.Delimited ∧ l.isConnected = false ∧ l.isComparison = false ∧
      r.isConnected = false ∧ r.isComparison = false ∧ r.isTest = false

instance decidableDelimited : ∀ t : Tree α, Decidable t.Delimited
  | leaf _ => inferInstanceAs (Decidable True)
  | test _ t =>
    have := decidableDelimited t
    inferInstanceAs (Decidable (_ ∧ _))
  | node (.connective _) l r =>
    have := decidableDelimited l
    have := decidableDelimited r
    inferInstanceAs (Decidable (_ ∧ _))
  | node (.binary _) l r =>
    have := decidableDelimited l
    have := decidableDelimited r
    inferInstanceAs (Decidable (_ ∧ _ ∧ _ ∧ _ ∧ _ ∧ _ ∧ _))

variable {t : Tree α}

theorem rightEnd_layout (connected : t.isConnected = false) (comparison : t.isComparison = false) :
    t.layout.rightEnd = [] := by
  cases t with
  | leaf | test => rfl
  | node o l r =>
      cases o with
      | connective op => cases connected
      | binary op =>
          rw [isComparison] at comparison
          rw [layout, if_neg (by simp [comparison])]
          rfl

theorem leftEnd_layout (connected : t.isConnected = false) (comparison : t.isComparison = false)
    (test : t.isTest = false) : t.layout.leftEnd = [] := by
  cases t with
  | leaf => rfl
  | test => cases test
  | node o l r =>
      cases o with
      | connective op => cases connected
      | binary op =>
          rw [isComparison] at comparison
          rw [layout, if_neg (by simp [comparison])]
          rfl

theorem eq_node_of_isConnected (h : t.isConnected = true) :
    ∃ op l r, t = .node (.connective op) l r := by
  unfold isConnected at h
  split at h
  · exact ⟨_, _, _, rfl⟩
  · cases h

theorem eq_node_of_isComparison (h : t.isComparison = true) :
    ∃ op l r, t = .node (.binary op) l r ∧ op.isComparison = true := by
  unfold isComparison at h
  split at h
  · exact ⟨_, _, _, rfl, h⟩
  · cases h

/-- An operand in front of arithmetic or of a comparison is whole when it waits for nothing. -/
theorem closes_binary_iff (op : BinaryOp) :
    (∀ o ∈ t.layout.rightEnd, o.Closes (Operator.binary op).level) ↔
      t.isConnected = false ∧ t.isComparison = false := by
  have hlevel := Operator.le_level_binary op
  constructor
  · intro closes
    constructor
    · by_contra connected
      obtain ⟨op', l, r, rfl⟩ := eq_node_of_isConnected (by simpa using connected)
      have hclose := closes (.connective op') (by simp [layout, Layout.rightEnd])
      have hlow := Operator.level_connective_le op'
      rcases hclose with h | ⟨h, -⟩ <;> omega
    · by_contra comparison
      obtain ⟨op', l, r, rfl, hop⟩ := eq_node_of_isComparison (by simpa using comparison)
      have hclose := closes (.binary op') (by simp [layout, hop, Layout.rightEnd])
      obtain ⟨hequal, hchains⟩ := Operator.level_of_isComparison hop
      rcases hclose with h | ⟨-, h⟩
      · omega
      · rw [hchains] at h
        cases h
  · rintro ⟨connected, comparison⟩
    rw [rightEnd_layout connected comparison]
    simp

/-- An operand behind arithmetic or a comparison is taken whole when nothing in it is looser. -/
theorem waits_binary_iff (op : BinaryOp) :
    (∀ level ∈ t.layout.leftEnd, (Operator.binary op).level < level) ↔
      t.isConnected = false ∧ t.isComparison = false ∧ t.isTest = false := by
  have hlevel := Operator.le_level_binary op
  constructor
  · intro waits
    refine ⟨?_, ?_, ?_⟩
    · by_contra connected
      obtain ⟨op', l, r, rfl⟩ := eq_node_of_isConnected (by simpa using connected)
      have hwait := waits (Operator.connective op').level (by simp [layout, Layout.leftEnd])
      have hlow := Operator.level_connective_le op'
      omega
    · by_contra comparison
      obtain ⟨op', l, r, rfl, hop⟩ := eq_node_of_isComparison (by simpa using comparison)
      have hwait := waits (Operator.binary op').level (by simp [layout, hop, Layout.leftEnd])
      obtain ⟨hequal, -⟩ := Operator.level_of_isComparison hop
      omega
    · cases t with
      | leaf | node => rfl
      | test negated t =>
          have hwait := waits Operator.testLevel (by simp [layout, Layout.leftEnd])
          rw [Operator.testLevel] at hwait
          omega
  · rintro ⟨connected, comparison, test⟩
    rw [leftEnd_layout connected comparison test]
    simp

/-- The operand of a test is whole when it has no connective. -/
theorem closes_test_iff (delimited : t.Delimited) :
    (∀ o ∈ t.layout.rightEnd, o.Closes Operator.testLevel) ↔ t.isConnected = false := by
  constructor
  · intro closes
    by_contra connected
    obtain ⟨op, l, r, rfl⟩ := eq_node_of_isConnected (by simpa using connected)
    have hclose := closes (.connective op) (by simp [layout, Layout.rightEnd])
    have hlow := Operator.level_connective_le op
    rw [Operator.testLevel] at hclose
    rcases hclose with h | ⟨h, -⟩ <;> omega
  · intro connected
    cases hcomparison : t.isComparison with
    | false =>
        rw [rightEnd_layout connected hcomparison]
        simp
    | true =>
        obtain ⟨op, l, r, rfl, hop⟩ := eq_node_of_isComparison hcomparison
        obtain ⟨-, -, -, -, hconnected, hright, -⟩ := delimited
        obtain ⟨hlevel, -⟩ := Operator.level_of_isComparison hop
        rw [layout, if_pos hop, Layout.rightEnd, rightEnd_layout hconnected hright]
        refine List.forall_mem_singleton.2 (.inl ?_)
        rw [hlevel]
        decide

/-- The tree as it is written groups as it should exactly when its operands are delimited. -/
theorem proper_layout_iff (t : Tree α) : t.layout.Proper ↔ t.Delimited := by
  induction t with
  | leaf a => exact Iff.rfl
  | test negated t ih =>
      rw [layout, Layout.Proper, Delimited, ih]
      exact and_congr_right closes_test_iff
  | node o l r ihl ihr =>
      cases o with
      | connective op =>
          have hparens (c : Layout α) : (Layout.parens c).rightEnd = [] := rfl
          have hleft (c : Layout α) : (Layout.parens c).leftEnd = [] := rfl
          simp only [layout, Layout.Proper, Delimited, hparens, hleft, ihl, ihr, List.not_mem_nil,
            false_implies, implies_true, and_true]
      | binary op =>
          have hnode : (Layout.node (.binary op) l.layout r.layout).Proper ↔
              (Tree.node (.binary op) l r).Delimited := by
            rw [Layout.Proper, Delimited, ihl, ihr, closes_binary_iff, waits_binary_iff, and_assoc]
          rw [layout]
          split
          · exact hnode
          · exact hnode

/-- The leaves of two trees with the same operators are related. -/
inductive Rel (R : α → β → Prop) : Tree α → Tree β → Prop
  | leaf {a b} (h : R a b) : Rel R (.leaf a) (.leaf b)
  | test {t u} (negated : Bool) (h : Rel R t u) : Rel R (.test negated t) (.test negated u)
  | node {l l' r r'} (o : Operator) (left : Rel R l l') (right : Rel R r r') :
      Rel R (.node o l r) (.node o l' r')

namespace Rel

variable {R S : α → β → Prop} {u : Tree β}

/-- Trees are the same when they are related to the same tree and their leaves are told apart. -/
theorem eq_of_apart {R : α → β → Prop} {S : α → β → Prop} {t v : Tree α} {u : Tree β}
    (ht : Rel R t u) (hv : Rel S v u)
    (apart : ∀ a ∈ t.leaves, ∀ b ∈ v.leaves, ∀ s, R a s → S b s → a = b) : t = v := by
  induction ht generalizing v with
  | leaf h =>
      cases hv with
      | leaf h' => rw [apart _ (by simp [leaves]) _ (by simp [leaves]) _ h h']
  | test negated h ih =>
      cases hv with
      | test _ h' => rw [ih h' apart]
  | @node l _ r _ o left right ihl ihr =>
      cases hv with
      | @node l' _ r' _ _ left' right' =>
          have apartLeft : ∀ a ∈ l.leaves, ∀ b ∈ l'.leaves, ∀ s, R a s → S b s → a = b :=
            fun a ha b hb => apart a (List.mem_append_left _ ha) b (List.mem_append_left _ hb)
          have apartRight : ∀ a ∈ r.leaves, ∀ b ∈ r'.leaves, ∀ s, R a s → S b s → a = b :=
            fun a ha b hb => apart a (List.mem_append_right _ ha) b (List.mem_append_right _ hb)
          rw [ihl left' apartLeft, ihr right' apartRight]

theorem mono (h : Rel R t u) (hRS : ∀ a b, R a b → S a b) : Rel S t u := by
  induction h with
  | leaf h => exact .leaf (hRS _ _ h)
  | test negated h ih => exact .test negated ih
  | node o left right ihl ihr => exact .node o ihl ihr

theorem form_eq (h : Rel R t u) : t.form = u.form := by
  induction h with
  | leaf h => rfl
  | test negated h ih => exact congrArg (Tree.test negated) ih
  | node o left right ihl ihr => exact congrArg₂ (Tree.node o) ihl ihr

end Rel

/-- What a tree is does not depend on its leaves. -/
theorem head_form (t : Tree α) : t.form.isConnected = t.isConnected ∧
    t.form.isComparison = t.isComparison ∧ t.form.isTest = t.isTest := by
  cases t with
  | leaf | test => exact ⟨rfl, rfl, rfl⟩
  | node o l r => cases o <;> exact ⟨rfl, rfl, rfl⟩

/-- Whether a tree is delimited does not depend on its leaves. -/
theorem delimited_form (t : Tree α) : t.form.Delimited ↔ t.Delimited := by
  induction t with
  | leaf a => exact Iff.rfl
  | test negated t ih =>
      have hform : (Tree.test negated t).form = .test negated t.form := rfl
      simp only [hform, Delimited, ih, (head_form t).1]
  | node o l r ihl ihr =>
      have hform : (Tree.node o l r).form = .node o l.form r.form := rfl
      obtain ⟨hl₁, hl₂, -⟩ := head_form l
      obtain ⟨hr₁, hr₂, hr₃⟩ := head_form r
      cases o with
      | connective op => simp only [hform, Delimited, ihl, ihr]
      | binary op => simp only [hform, Delimited, ihl, ihr, hl₁, hl₂, hr₁, hr₂, hr₃]

theorem Rel.head_eq {R : α → β → Prop} {u : Tree β} (h : Rel R t u) :
    t.isConnected = u.isConnected ∧ t.isComparison = u.isComparison ∧ t.isTest = u.isTest := by
  obtain ⟨ht₁, ht₂, ht₃⟩ := head_form t
  obtain ⟨hu₁, hu₂, hu₃⟩ := head_form u
  rw [← ht₁, ← ht₂, ← ht₃, h.form_eq]
  exact ⟨hu₁, hu₂, hu₃⟩

theorem Rel.delimited_iff {R : α → β → Prop} {u : Tree β} (h : Rel R t u) :
    t.Delimited ↔ u.Delimited := by
  rw [← delimited_form, h.form_eq, delimited_form]

end Tree

/-- A text that spells a tree as it is written is read as a tree of that form exactly when the
tree is delimited, and then as the tree itself. -/
theorem Fragment.Spells.readCondition_iff {f : Fragment} {t : Tree String} (h : Spells f t.layout) :
    (∃ u, Sql.readCondition f.text = some u ∧ u.form = t.form) ↔ t.Delimited := by
  rw [h.readCondition, ← Tree.proper_layout_iff, Layout.proper_iff_readSymbols, Tree.tree_layout]

theorem Fragment.Spells.readCondition_eq {f : Fragment} {t : Tree String} (h : Spells f t.layout)
    (delimited : t.Delimited) : Sql.readCondition f.text = some t := by
  rw [h.readCondition, readSymbols_symbols ((Tree.proper_layout_iff t).2 delimited),
    Tree.tree_layout]

end TypedQuery.Sql
