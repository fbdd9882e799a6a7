import TypedQuery.Text.Runs

/-!
# Loose characters

Letters and numbers that are no part of a word. A word consists of the letters, marks and
decimal digits of Unicode 16. Names take all letters and numbers of Unicode 17, so other
numbers, such as fractions, and the letters that are new there stand loose between words.
-/

namespace TypedQuery.Text

/-- The runs of loose characters. -/
def looseRuns : List Nat :=
  [
    178, 2, 5, 1, 2, 3, 2000, 1, 356, 6, 376, 6, 120, 3, 105, 1, 27, 7, 93, 1, 123, 7, 17, 9, 433,
    10, 1077, 20, 1139, 10, 480, 1, 1685, 1, 3, 6, 6, 10, 198, 16, 41, 1, 726, 60, 78, 22, 630, 30,
    1385, 1, 1172, 4, 138, 10, 30, 8, 1, 15, 32, 10, 39, 15, 29966, 2, 2, 1, 1, 1, 28, 1, 62, 6,
    22737, 45, 65, 4, 17, 2, 341, 27, 36, 4, 1332, 8, 25, 7, 39, 9, 75, 5, 22, 6, 36, 26, 98, 2, 2,
    16, 2, 46, 64, 9, 52, 2, 30, 3, 75, 5, 104, 8, 24, 8, 41, 7, 330, 6, 352, 31, 70, 3, 50, 2, 33,
    10, 42, 4, 112, 7, 134, 20, 379, 20, 1349, 2, 430, 9, 621, 8, 242, 19, 323, 44, 4, 10, 470, 21,
    19334, 7, 798, 23, 9, 25, 2, 25, 286, 5, 6145, 8, 1289, 22, 97, 115, 17613, 20, 12, 20, 108,
    25, 4935, 31, 1, 22, 8, 2, 455, 9, 929, 59, 1, 3, 1, 4, 76, 45, 1, 15, 962, 13, 50733, 6, 5986,
    12, 21762, 4298 ]

/-- Is the character a letter or a number that is no part of a word? -/
def isLoose (c : Char) : Bool := inRuns false looseRuns c.toNat

end TypedQuery.Text
