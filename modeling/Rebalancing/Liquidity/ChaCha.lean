import Rebalancing.Liquidity.Sampling

/-! # Random words from a key

The words that draws are made from come from the ChaCha stream cipher with twelve rounds: the blocks of
a key, numbered from zero, are read as 64-bit words, the lower half first. -/

namespace Rebalancing.ChaCha

/-- A row of the state, a matrix of four by four words. -/
structure Row where
  a : UInt32
  b : UInt32
  c : UInt32
  d : UInt32

namespace Row

def zipWith (f : UInt32 → UInt32 → UInt32) (x y : Row) : Row :=
  ⟨f x.a y.a, f x.b y.b, f x.c y.c, f x.d y.d⟩

def map (f : UInt32 → UInt32) (x : Row) : Row := ⟨f x.a, f x.b, f x.c, f x.d⟩

/-- The row moved to the left by one place. -/
def shift (x : Row) : Row := ⟨x.b, x.c, x.d, x.a⟩

def toList (x : Row) : List UInt32 := [x.a, x.b, x.c, x.d]

end Row

structure Block where
  top : Row
  second : Row
  third : Row
  bottom : Row

namespace Block

def rotateLeft (n x : UInt32) : UInt32 := (x <<< n) ||| (x >>> (32 - n))

/-- Mixes every column. -/
def columns (s : Block) : Block :=
  let half (m n : UInt32) (s : Block) : Block :=
    let top := s.top.zipWith (· + ·) s.second
    let bottom := (s.bottom.zipWith (· ^^^ ·) top).map (rotateLeft m)
    let third := s.third.zipWith (· + ·) bottom
    let second := (s.second.zipWith (· ^^^ ·) third).map (rotateLeft n)
    { top, second, third, bottom }
  half 8 7 (half 16 12 s)

/-- Moves the diagonals into columns. -/
def slant (s : Block) : Block where
  top := s.top
  second := s.second.shift
  third := s.third.shift.shift
  bottom := s.bottom.shift.shift.shift

/-- Moves the columns back into diagonals. -/
def unslant (s : Block) : Block where
  top := s.top
  second := s.second.shift.shift.shift
  third := s.third.shift.shift
  bottom := s.bottom.shift

/-- Two rounds: over the columns, then over the diagonals. -/
def doubleRound (s : Block) : Block := s.columns.slant.columns.unslant

def add (s t : Block) : Block where
  top := s.top.zipWith (· + ·) t.top
  second := s.second.zipWith (· + ·) t.second
  third := s.third.zipWith (· + ·) t.third
  bottom := s.bottom.zipWith (· + ·) t.bottom

def toList (s : Block) : List UInt32 :=
  s.top.toList ++ s.second.toList ++ s.third.toList ++ s.bottom.toList

end Block

/-- A key of 256 bits. -/
structure Key where
  low : Row
  high : Row

/-- The words of a block of the stream. -/
def block (key : Key) (number : UInt64) : List UInt32 :=
  let start : Block := {
    top := ⟨0x61707865, 0x3320646e, 0x79622d32, 0x6b206574⟩
    second := key.low
    third := key.high
    bottom := ⟨number.toUInt32, (number >>> 32).toUInt32, 0, 0⟩ }
  (((List.range 6).foldl (fun s _ => s.doubleRound) start).add start).toList

/-- Pairs of words, the lower half first. -/
def joined : List UInt32 → List UInt64
  | low :: high :: rest => (low.toUInt64 ||| (high.toUInt64 <<< 32)) :: joined rest
  | _ => []

/-- `count` words of the stream, after the first `start`. -/
def words (key : Key) (start count : Nat) : List UInt64 :=
  let first := start / 8
  let blocks := (List.range (count / 8 + 2)).flatMap fun k => joined (block key (.ofNat (first + k)))
  (blocks.drop (start % 8)).take count

/-- The state of a linear congruential generator after the given one. -/
def advance (state : UInt64) : UInt64 := state * 6364136223846793005 + 11634580027462260723

/-- The word that a state of the generator stands for: its upper half, mixed and rotated. -/
def output (state : UInt64) : UInt32 :=
  let mixed := (((state >>> 18) ^^^ state) >>> 27).toUInt32
  let turn := (state >>> 59).toUInt32
  (mixed >>> turn) ||| (mixed <<< ((32 - turn) &&& 31))

/-- The key that a number is stretched to. -/
def Key.ofSeed (seed : UInt64) : Key :=
  let s1 := advance seed
  let s2 := advance s1
  let s3 := advance s2
  let s4 := advance s3
  let s5 := advance s4
  let s6 := advance s5
  let s7 := advance s6
  { low := ⟨output s1, output s2, output s3, output s4⟩
    high := ⟨output s5, output s6, output s7, output (advance s7)⟩ }

/-- The key of 32 bytes, each word with its low byte first. -/
def Key.ofBytes (bytes : List UInt8) : Key :=
  let word (i : Nat) : UInt32 :=
    let byte (k : Nat) := (bytes.getD (4 * i + k) 0).toUInt32
    byte 0 ||| byte 1 <<< 8 ||| byte 2 <<< 16 ||| byte 3 <<< 24
  { low := ⟨word 0, word 1, word 2, word 3⟩, high := ⟨word 4, word 5, word 6, word 7⟩ }

end Rebalancing.ChaCha
