/-!
# Random source

`Random` is the stream of 32-bit words of the ChaCha cipher with eight rounds:
`word key i` is word `i`, and a source is a key with the number of words taken.
`Random.below` draws an index without bias, and `Random.shuffle` draws a
permutation of a list.
-/

namespace CommandChain

/-- A word stream, of which `taken` words have been drawn. -/
structure Random where
  /-- Eight words. -/
  key : List UInt32
  taken : Nat
  deriving DecidableEq, Repr

namespace Random

def rotateLeft (x : UInt32) (n : UInt32) : UInt32 := (x <<< n) ||| (x >>> (32 - n))

def rotateRight (x : UInt32) (n : UInt32) : UInt32 := (x >>> n) ||| (x <<< ((32 - n) % 32))

/-- Four words mixed into each other. -/
def quarterRound (a b c d : UInt32) : UInt32 × UInt32 × UInt32 × UInt32 :=
  let a := a + b
  let d := rotateLeft (d ^^^ a) 16
  let c := c + d
  let b := rotateLeft (b ^^^ c) 12
  let a := a + b
  let d := rotateLeft (d ^^^ a) 8
  let c := c + d
  let b := rotateLeft (b ^^^ c) 7
  (a, b, c, d)

/-- A quarter round on four words of a block. -/
def mix (s : List UInt32) (i j k l : Nat) : List UInt32 :=
  let (a, b, c, d) := quarterRound (s.getD i 0) (s.getD j 0) (s.getD k 0) (s.getD l 0)
  (((s.set i a).set j b).set k c).set l d

/-- The four columns, then the four diagonals. -/
def doubleRound (s : List UInt32) : List UInt32 :=
  let s := mix s 0 4 8 12
  let s := mix s 1 5 9 13
  let s := mix s 2 6 10 14
  let s := mix s 3 7 11 15
  let s := mix s 0 5 10 15
  let s := mix s 1 6 11 12
  let s := mix s 2 7 8 13
  mix s 3 4 9 14

/-- Sixteen words of the stream. -/
def block (key : List UInt32) (counter : Nat) : List UInt32 :=
  let start := [0x61707865, 0x3320646e, 0x79622d32, 0x6b206574] ++ key ++
    [.ofNat counter, .ofNat (counter / UInt32.size), 0, 0]
  let mixed := doubleRound (doubleRound (doubleRound (doubleRound start)))
  List.zipWith (· + ·) mixed start

/-- Word `i` of the stream. -/
def word (key : List UInt32) (i : Nat) : UInt32 := (block key (i / 16)).getD (i % 16) 0

/-- `n` key words from a linear congruential generator. -/
def expand : Nat → UInt64 → List UInt32
  | 0, _ => []
  | n + 1, state =>
    let state := state * 6364136223846793005 + 11634580027462260723
    let x := (((state >>> 18) ^^^ state) >>> 27).toUInt32
    rotateRight x (state >>> 59).toUInt32 :: expand n state

/-- The source with a seed. -/
def ofSeed (seed : UInt64) : Random := ⟨expand 8 seed, 0⟩

def next32 (r : Random) : UInt32 × Random := (word r.key r.taken, { r with taken := r.taken + 1 })

/-- Two words, the low half first. -/
def next64 (r : Random) : UInt64 × Random :=
  let (low, r) := r.next32
  let (high, r) := r.next32
  (low.toUInt64 ||| (high.toUInt64 <<< 32), r)

/-- A second source, seeded from the first. -/
def fork (r : Random) : Random × Random :=
  let (seed, r) := r.next64
  (ofSeed seed, r)

/-- The stream repeats after so many words. -/
def period : Nat := 1 <<< 68

/-- Draws words until one gives an index below `n` without bias: of the products
`word · n`, those whose low half exceeds the greatest multiple of `n` by a power
of two are passed over. -/
def belowWithin : Nat → Nat → Random → Nat × Random
  | 0, _, r => (0, r)
  | attempts + 1, n, r =>
    let (w, r) := r.next32
    let product := w.toNat * n
    let zone := n <<< (31 - n.log2) - 1
    if product % UInt32.size ≤ zone then (product / UInt32.size, r) else belowWithin attempts n r

/-- An index below `n`. -/
def below (n : Nat) (r : Random) : Nat × Random := belowWithin period n r

/-- Exchanges two items. -/
def swap {α : Type} (l : List α) (i j : Nat) : List α :=
  match l[i]?, l[j]? with
  | some a, some b => (l.set i b).set j a
  | _, _ => l

/-- Exchanges item `i` with one at or before it, then does so for all before `i`. -/
def shuffleFrom {α : Type} : Nat → List α → Random → List α × Random
  | 0, l, r => (l, r)
  | i + 1, l, r =>
    let (j, r) := r.below (i + 2)
    shuffleFrom i (swap l (i + 1) j) r

/-- A permutation of the list. -/
def shuffle {α : Type} (l : List α) (r : Random) : List α × Random :=
  shuffleFrom (l.length - 1) l r

end Random

end CommandChain
