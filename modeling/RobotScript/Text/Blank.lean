namespace RobotScript.Text

/-- The characters with the property White_Space. -/
def isBlank (c : Char) : Bool :=
  let n := c.toNat
  (0x09 ≤ n && n ≤ 0x0D) || n == 0x20 || n == 0x85 || n == 0xA0 || n == 0x1680 ||
    (0x2000 ≤ n && n ≤ 0x200A) || n == 0x2028 || n == 0x2029 || n == 0x202F || n == 0x205F ||
    n == 0x3000

/-- The characters of category Cc. -/
def isControl (c : Char) : Bool :=
  c.toNat < 0x20 || (0x7F ≤ c.toNat && c.toNat ≤ 0x9F)

/-- Drops the longest run at the end whose characters all satisfy `drop`. -/
def dropEndWhile (drop : Char → Bool) (s : List Char) : List Char :=
  (s.reverse.dropWhile drop).reverse

def trimEnd (s : List Char) : List Char := dropEndWhile isBlank s

/-- Text without the blanks around it. -/
def trim (s : List Char) : List Char := trimEnd (s.dropWhile isBlank)

/-- Text with its ASCII letters in upper case and all else unchanged. -/
def upper (s : List Char) : List Char := s.map Char.toUpper

/-- The number of bytes of `s` in UTF-8, the unit of every position that is reported. -/
def byteSize : List Char → Nat
  | [] => 0
  | c :: s => c.utf8Size + byteSize s

end RobotScript.Text
