import Holdings.Text.Digits

/-!
# The hash function BLAKE3

A text is cut into chunks of 1024 bytes and a chunk into blocks of 64. Compressing the blocks of a chunk one
after the other gives its chaining value; two chaining values side by side are the block of a parent, and
so on up to the root. The last compression of a subtree is kept back as a `Node`, since the root is
compressed differently from all others: its flags say so.

Only the plain hash of 32 bytes is here: no keys, and no longer output.
-/

namespace Holdings.Blake3

/-! ## Compression -/

/-- A chaining value. -/
abbrev Chain : Type := Vector UInt32 8

/-- A block, or the state of a compression. -/
abbrev Block : Type := Vector UInt32 16

/-- The chaining value that everything starts from. -/
def start : Chain :=
  #v[0x6A09E667, 0xBB67AE85, 0x3C6EF372, 0xA54FF53A, 0x510E527F, 0x9B05688C, 0x1F83D9AB, 0x5BE0CD19]

/-- Turns a word to the right by `n` bits, `0 < n < 32`. -/
def rotate (w n : UInt32) : UInt32 := (w >>> n) ||| (w <<< (32 - n))

/-- Four places of the state. -/
structure Lane where
  /-- the first -/
  a : Fin 16
  /-- the second -/
  b : Fin 16
  /-- the third -/
  c : Fin 16
  /-- the fourth -/
  d : Fin 16

/-- Half of a mixing step: one word goes in, and the lane is turned by two distances. -/
def stir (l : Lane) (word far near : UInt32) (s : Block) : Block :=
  let s := s.set l.a (s[l.a] + s[l.b] + word)
  let s := s.set l.d (rotate (s[l.d] ^^^ s[l.a]) far)
  let s := s.set l.c (s[l.c] + s[l.d])
  s.set l.b (rotate (s[l.b] ^^^ s[l.c]) near)

/-- Mixes two words into a lane. -/
def mix (l : Lane) (x y : UInt32) (s : Block) : Block := stir l y 8 7 (stir l x 16 12 s)

/-- The lanes of a round: the columns and then the diagonals of the state. -/
def lanes : List Lane :=
  [⟨0, 4, 8, 12⟩, ⟨1, 5, 9, 13⟩, ⟨2, 6, 10, 14⟩, ⟨3, 7, 11, 15⟩,
    ⟨0, 5, 10, 15⟩, ⟨1, 6, 11, 12⟩, ⟨2, 7, 8, 13⟩, ⟨3, 4, 9, 14⟩]

/-- Mixes words into lanes, two for each. -/
def mixAll : List Lane → List UInt32 → Block → Block
  | l :: rest, x :: y :: words, s => mixAll rest words (mix l x y s)
  | _, _, s => s

/-- Where the words of a block come from in the next round. -/
def order : Vector (Fin 16) 16 := #v[2, 6, 3, 10, 7, 0, 4, 13, 1, 11, 12, 5, 9, 14, 15, 8]

/-- Rounds of mixing, with the words of the block rearranged after each. -/
def rounds : Nat → Block → Block → Block
  | 0, _, s => s
  | n + 1, words, s => rounds n (order.map fun i => words[i]) (mixAll lanes words.toList s)

/-- What a compression works on. -/
structure Node where
  /-- the chaining value so far -/
  chain : Chain
  /-- the block -/
  block : Block
  /-- which chunk it belongs to; zero for a parent -/
  counter : UInt64
  /-- how many bytes of the block count -/
  length : UInt32
  /-- what role the block has -/
  flags : UInt32

/-- The block begins a chunk. -/
def chunkStart : UInt32 := 1
/-- The block ends a chunk. -/
def chunkEnd : UInt32 := 2
/-- The block is a parent. -/
def isParent : UInt32 := 4
/-- The block is the root. -/
def isRoot : UInt32 := 8

/-- Compresses a block. -/
def Node.compress (n : Node) : Chain :=
  let s := (n.chain ++ #v[start[0], start[1], start[2], start[3], n.counter.toUInt32,
    (n.counter >>> 32).toUInt32, n.length, n.flags] : Block)
  let s := rounds 7 n.block s
  Vector.ofFn fun i : Fin 8 => s[i.val] ^^^ s[i.val + 8]

/-- Compresses a block as the root. -/
def Node.root (n : Node) : Chain := { n with flags := n.flags ||| isRoot }.compress

/-! ## Chunks and the tree over them -/

/-- Cuts a list into pieces of a size; the last may be shorter, and is empty only where the list is. -/
def pieces {β : Type} (size : Nat) (l : List β) : List (List β) :=
  if size = 0 ∨ l.length ≤ size then [l] else l.take size :: pieces size (l.drop size)
termination_by l.length
decreasing_by
  simp only [not_or, Nat.not_le] at *
  simp only [List.length_drop]
  omega

/-- Four bytes as a word, the lowest first; a missing byte is zero. -/
def word (bytes : List UInt8) (i : Nat) : UInt32 :=
  let byte := fun k => (bytes.getD (4 * i + k) 0).toUInt32
  byte 0 ||| byte 1 <<< 8 ||| byte 2 <<< 16 ||| byte 3 <<< 24

/-- The bytes of a block, filled up with zeros. -/
def blockOf (bytes : List UInt8) : Block := Vector.ofFn fun i => word bytes i.val

/-- The last compression of a chunk, from a chaining value and the blocks that are left. -/
def chunkFrom (counter : UInt64) (flags : UInt32) (chain : Chain) : List (List UInt8) → Node
  | [] => ⟨chain, blockOf [], counter, 0, flags ||| chunkEnd⟩
  | [b] => ⟨chain, blockOf b, counter, b.length.toUInt32, flags ||| chunkEnd⟩
  | b :: rest =>
    chunkFrom counter 0 (Node.compress ⟨chain, blockOf b, counter, b.length.toUInt32, flags⟩) rest

/-- The last compression of a chunk. -/
def chunk (counter : Nat) (bytes : List UInt8) : Node :=
  chunkFrom counter.toUInt64 chunkStart start (pieces 64 bytes)

/-- The parent of two subtrees. -/
def parent (left right : Node) : Node :=
  ⟨start, (left.compress ++ right.compress : Block), 0, 64, isParent⟩

/-- One level of parents; a last node without a partner moves up as it is. -/
def pairUp : List Node → List Node
  | left :: right :: rest => parent left right :: pairUp rest
  | rest => rest

/-- The tree over some nodes, level by level; `fuel` bounds the levels. -/
def tree : Nat → Node → List Node → Node
  | 0, n, _ => n
  | _ + 1, n, [] => n
  | fuel + 1, n, m :: rest => tree fuel (parent n m) (pairUp rest)

/-- The root of some bytes. -/
def rootOf (bytes : List UInt8) : Node :=
  match (pieces 1024 bytes).mapIdx chunk with
  | n :: rest => tree rest.length n rest
  | [] => chunk 0 []

/-- The bytes of a word, the lowest first. -/
def wordBytes (w : UInt32) : List Nat :=
  [0, 8, 16, 24].map fun k : UInt32 => ((w >>> k) &&& 0xFF).toNat

/-- The hash of some bytes in hexadecimal digits. -/
def hex (bytes : List UInt8) : String :=
  String.ofList ((rootOf bytes).root.toList.flatMap fun w => (wordBytes w).flatMap (hexFigures 2))

/-- The hash of a text. -/
def ofText (text : String) : String := hex text.toUTF8.toList

end Holdings.Blake3
