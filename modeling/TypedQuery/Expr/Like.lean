/-!
# Patterns of LIKE

A pattern is a list of tokens: any run of characters, any one character, or an exact one.
A backslash makes the next character exact and stands for itself at the end.

Text and pattern are compared from left to right. A run takes nothing at first; on a mismatch
only the latest run takes one more character, and the comparison goes on behind it. So the cost
is at most the length of the text times that of the pattern.
-/

namespace TypedQuery

inductive LikeToken where
  | anyRun
  | anyOne
  | exact (c : Char)
deriving DecidableEq

namespace LikeToken

/-- The tokens of a pattern. -/
def ofPattern : List Char → List LikeToken
  | [] => []
  | ['\\'] => [exact '\\']
  | '\\' :: c :: cs => exact c :: ofPattern cs
  | '%' :: cs => anyRun :: ofPattern cs
  | '_' :: cs => anyOne :: ofPattern cs
  | c :: cs => exact c :: ofPattern cs

/-- Does the token stand for the one character? -/
def fits : LikeToken → Char → Bool
  | anyRun, _ => false
  | anyOne, _ => true
  | exact c, d => c == d

end LikeToken

/-- A run of a pattern: the tokens behind it and the text that it leaves to them. -/
structure LikeRun where
  tokens : List LikeToken
  text : List Char

/-- What is left of a text and of a pattern while they are compared, and the latest run. -/
structure LikeScan where
  text : List Char
  tokens : List LikeToken
  run? : Option LikeRun

namespace LikeScan

/-- The latest run takes one more character. Without one to take there is no match. -/
def widen : Option LikeRun → LikeScan ⊕ Bool
  | some ⟨tokens, _ :: text⟩ => .inl ⟨text, tokens, some ⟨tokens, text⟩⟩
  | _ => .inr false

/-- One turn of a comparison: it goes on, or it ends with the answer. -/
def step : LikeScan → LikeScan ⊕ Bool
  | ⟨[], tokens, _⟩ => .inr (tokens.all (· == .anyRun))
  | ⟨c :: text, .anyRun :: tokens, _⟩ => .inl ⟨c :: text, tokens, some ⟨tokens, c :: text⟩⟩
  | ⟨c :: text, t :: tokens, run?⟩ =>
    if t.fits c then .inl ⟨text, tokens, run?⟩ else widen run?
  | ⟨_ :: _, [], run?⟩ => widen run?

/-- The characters that are left to the tokens or to those behind the latest run. -/
def left (s : LikeScan) : Nat := max s.text.length (s.run?.elim 0 (·.text.length))

/-- The tokens that are left, or those behind the latest run. -/
def width (s : LikeScan) : Nat := max s.tokens.length (s.run?.elim 0 (·.tokens.length))

/-- How many turns may follow after the next one. -/
def rank (s : LikeScan) : Nat := s.left * (s.width + 1) + s.tokens.length

/-- A turn takes a token, or a character from what the latest run leaves. -/
theorem rank_lt_of_tokens {s s' : LikeScan} (hleft : s'.left ≤ s.left)
    (hwidth : s'.width ≤ s.width) (htokens : s'.tokens.length < s.tokens.length) :
    s'.rank < s.rank := by
  have hmul := Nat.mul_le_mul hleft (Nat.add_le_add_right hwidth 1)
  unfold rank
  omega

theorem rank_lt_of_left {s s' : LikeScan} (hleft : s'.left < s.left) (hwidth : s'.width ≤ s.width) :
    s'.rank < s.rank := by
  have hmul := Nat.mul_le_mul (Nat.add_one_le_of_lt hleft) (Nat.add_le_add_right hwidth 1)
  have htokens : s'.tokens.length ≤ s'.width := Nat.le_max_left ..
  rw [Nat.add_one_mul] at hmul
  unfold rank
  omega

theorem exists_of_widen {run? : Option LikeRun} {s' : LikeScan} (h : widen run? = .inl s') :
    ∃ tokens c text, run? = some ⟨tokens, c :: text⟩ ∧
      s' = ⟨text, tokens, some ⟨tokens, text⟩⟩ := by
  unfold widen at h
  split at h
  · exact ⟨_, _, _, rfl, (Sum.inl.inj h).symm⟩
  · cases h

theorem rank_lt_of_widen {s s' : LikeScan} (h : widen s.run? = .inl s') : s'.rank < s.rank := by
  obtain ⟨tokens, c, text, hrun, rfl⟩ := exists_of_widen h
  apply rank_lt_of_left
  · simp only [left, hrun, Option.elim_some, List.length_cons]
    omega
  · simp only [width, hrun, Option.elim_some]
    omega

theorem rank_lt_of_step {s s' : LikeScan} (h : s.step = .inl s') : s'.rank < s.rank := by
  unfold step at h
  split at h
  · cases h
  · rename_i c text tokens run?
    obtain rfl := Sum.inl.inj h
    apply rank_lt_of_tokens
    · simp only [left, Option.elim_some]
      omega
    · simp only [width, Option.elim_some, List.length_cons]
      omega
    · exact Nat.lt_succ_self _
  · split at h
    · obtain rfl := Sum.inl.inj h
      apply rank_lt_of_tokens
      · simp only [left, List.length_cons]
        omega
      · simp only [width, List.length_cons]
        omega
      · exact Nat.lt_succ_self _
    · exact rank_lt_of_widen h
  · exact rank_lt_of_widen h

/-- The answer of a comparison. -/
def answer (s : LikeScan) : Bool :=
  match _ : s.step with
  | .inl s' => s'.answer
  | .inr b => b
termination_by s.rank
decreasing_by exact rank_lt_of_step ‹_›

end LikeScan

/-- Does the text match the whole pattern? -/
def likeMatch (text pattern : List Char) : Bool :=
  LikeScan.answer ⟨text, LikeToken.ofPattern pattern, none⟩

end TypedQuery
