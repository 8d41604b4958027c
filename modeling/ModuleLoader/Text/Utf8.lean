import ModuleLoader.Text.Quoted
/-!
Bytes and the characters they encode. Bytes that are not UTF-8 break into chunks: characters, and
the longest runs that start like a character but do not go on as one.
-/
namespace ModuleLoader.Text

abbrev Bytes := List UInt8

/-- The UTF-8 form of a text. -/
def utf8 (cs : List Char) : Bytes := cs.flatMap String.utf8EncodeChar

def utf8Bytes (s : String) : Bytes := utf8 s.toList

/-- A character of the text, or bytes that are none. -/
inductive Chunk
  | char (c : Char)
  | broken (bytes : Bytes)

def Chunk.char? : Chunk → Option Char
  | char c => some c
  | broken _ => none

def inRange (b : UInt8) (low high : Nat) : Bool := low ≤ b.toNat && b.toNat ≤ high

/-- How many continuation bytes follow a first byte, and the range of the first of them. -/
def continuations? (first : UInt8) : Option (Nat × Nat × Nat) :=
  if inRange first 0xc2 0xdf then some (1, 0x80, 0xbf)
  else if first = 0xe0 then some (2, 0xa0, 0xbf)
  else if first = 0xed then some (2, 0x80, 0x9f)
  else if inRange first 0xe1 0xef then some (2, 0x80, 0xbf)
  else if first = 0xf0 then some (3, 0x90, 0xbf)
  else if inRange first 0xf1 0xf3 then some (3, 0x80, 0xbf)
  else if first = 0xf4 then some (3, 0x80, 0x8f)
  else none

/-- The continuation bytes at the head of `bytes`, at most `count`; the range is that of the first. -/
def continuationRun (count low high : Nat) : Bytes → Bytes
  | [] => []
  | b :: bs =>
    match count with
    | 0 => []
    | count + 1 => if inRange b low high then b :: continuationRun count 0x80 0xbf bs else []

/-- The code point that a first byte and its continuation bytes spell. -/
def codePoint (first : UInt8) (rest : Bytes) : Nat :=
  let lead := first.toNat % Nat.pow 2 (6 - rest.length)
  rest.foldl (fun n b => 64 * n + b.toNat % 64) lead

/-- The first chunk of some bytes that start with `first`. -/
def firstChunk (first : UInt8) (rest : Bytes) : Chunk :=
  if first < 0x80 then .char (Char.ofNat first.toNat)
  else
    match continuations? first with
    | none => .broken [first]
    | some (count, low, high) =>
      let run := continuationRun count low high rest
      if run.length = count then .char (Char.ofNat (codePoint first run))
      else .broken (first :: run)

/-- The number of bytes behind the first that belong to its chunk. -/
def chunkTail (first : UInt8) (rest : Bytes) : Nat :=
  match continuations? first with
  | none => 0
  | some (count, low, high) => (continuationRun count low high rest).length

/-- All chunks, in order; together they hold every byte. -/
def chunks : Bytes → List Chunk
  | [] => []
  | first :: rest => firstChunk first rest :: chunks (rest.drop (chunkTail first rest))
termination_by bytes => bytes.length

/-- The text that bytes encode, if all of them do. -/
def ofUtf8? (bytes : Bytes) : Option String :=
  ((chunks bytes).mapM Chunk.char?).map String.ofList

/-- The text that bytes encode, with a replacement character for each run that encodes nothing. -/
def ofUtf8 (bytes : Bytes) : String :=
  String.ofList ((chunks bytes).map fun chunk => chunk.char?.getD '\uFFFD')

def hexUpper (b : UInt8) : List Char :=
  let digit (n : Nat) : Char := if n < 10 then Char.ofNat (48 + n) else Char.ofNat (55 + n)
  [digit (b.toNat / 16), digit (b.toNat % 16)]

def Chunk.escape : Chunk → List Char
  | char c => escapeChar c
  | broken bytes => bytes.flatMap fun b => '\\' :: 'x' :: hexUpper b

/-- Bytes between double quotes: their text escaped as ever, and `\xNN` for a byte that is none. -/
def quotedBytes (bytes : Bytes) : String :=
  String.ofList ('"' :: (chunks bytes).flatMap Chunk.escape ++ ['"'])

end ModuleLoader.Text
