import CloRedis.Hiredis.Grammar
import CloRedis.Hiredis.Numbers
import CloRedis.Hiredis.Reader

/-!
How `hiredis.c` formats commands: `redisvFormatCommand` and the two functions
that take the arguments as an array. Lengths are added in the type of the
source, and the block a command is written into has the size it is given.
`memory` says for every turn whether what it allocates is there.
-/

namespace CloRedis

open Library

/-! ### Commands as bytes -/

/-- An argument as a bulk string. -/
def bulk (arg : List Char) : List Char := '$' :: (decimal arg.length ++ crlf ++ (arg ++ crlf))

/-- The bytes of a command. -/
def commandBytes (argv : List (List Char)) : List Char :=
  arrayHead argv.length ++ (argv.map bulk).flatten

def bulklen (len : Nat) : Nat := 1 + countDigits len + 2 + len + 2

/-- What a program must not do. -/
inductive FormatFault where
  | assertion
  | badArgument
  | badPointer
  | pastEnd
  deriving DecidableEq, Repr

/-- What a function that formats returns: a command and its length, or a
negative number. -/
inductive Formatted where
  | command (cmd : List Char) (len : Int)
  | error (code : Int)
  deriving DecidableEq, Repr

/-! ### The block -/

/-- The size of `malloc(totlen+1)`; one that is negative is never there. -/
def mallocSize (totlen : Int) : Option Nat :=
  let size := (toInt32 (totlen + 1) % 2 ^ 64).toNat
  if size < 2 ^ 63 then some size else none

/-- Bytes written behind those of the command. -/
def copyTo (size : Nat) (cmd text : List Char) : Except FormatFault (List Char) :=
  if cmd.length + text.length ≤ size then .ok (cmd ++ text) else .error .badPointer

/-- `sprintf(cmd+pos, …)`, which writes a terminator too. -/
def sprintfTo (size : Nat) (cmd text : List Char) : Except FormatFault (List Char) :=
  if cmd.length + text.length + 1 ≤ size then .ok (cmd ++ text) else .error .badPointer

/-- The commands are built in the same way from the words and from an array. -/
def buildCommand (memory : Bool) (argv : List (List Char)) (totlen : Int) :
    Except FormatFault Formatted :=
  match if memory then mallocSize totlen else none with
  | none => .ok (.error (-1))
  | some size => do
      let cmd ← sprintfTo size [] ('*' :: (decimal argv.length ++ crlf))
      let cmd ← argv.foldlM (fun cmd arg => do
        let cmd ← sprintfTo size cmd ('$' :: (decimal arg.length ++ crlf))
        let cmd ← copyTo size cmd arg
        copyTo size cmd crlf) cmd
      if toInt32 cmd.length ≠ totlen then .error .assertion
      else
        let _ ← copyTo size cmd ['\x00']
        .ok (.command cmd totlen)

/-! ### Arguments in an array -/

/-- The lengths of the arguments: those given, or where their NUL is. -/
def argvLens (argv : List (List Char)) : Option (List Nat) → Except FormatFault (List Nat)
  | none => .ok (argv.map fun arg => (cText arg).length)
  | some argvlen =>
      if argv.length ≤ argvlen.length then .ok (argvlen.take argv.length)
      else .error .badPointer

/-- The bytes that are copied of an argument. -/
def argBytes (arg : List Char) (len : Nat) : Except FormatFault (List Char) :=
  if len ≤ arg.length then .ok (arg.take len) else .error .badPointer

def argvBytes : List (List Char) → List Nat → Except FormatFault (List (List Char))
  | arg :: argv, len :: lens => do
      let bytes ← argBytes arg len
      let rest ← argvBytes argv lens
      .ok (bytes :: rest)
  | _, _ => .ok []

def redisFormatCommandArgv (memory : Bool) (argv : List (List Char)) (argvlen : Option (List Nat)) :
    Except FormatFault Formatted := do
  let lens ← argvLens argv argvlen
  let totlen := lens.foldl (fun totlen len => toInt32 (totlen + bulklen len))
    (1 + countDigits argv.length + 2 : Int)
  -- no argument is read before there is a block
  if memory ∧ (mallocSize totlen).isSome then
    let args ← argvBytes argv lens
    buildCommand memory args totlen
  else .ok (.error (-1))

/-- `redisFormatSdsCommandArgv`; its `%u` takes a length as an `unsigned int`. -/
def redisFormatSdsCommandArgv (memory : Bool) (argv : List (List Char))
    (argvlen : Option (List Nat)) : Except FormatFault Formatted := do
  let lens ← argvLens argv argvlen
  let totlen := lens.foldl (fun totlen len => totlen + bulklen len)
    (1 + countDigits argv.length + 2)
  if memory then
    let args ← argvBytes argv lens
    let cmd := args.foldl (fun cmd arg =>
      cmd ++ ('$' :: (decimal (arg.length % 2 ^ 32 : Nat) ++ crlf)) ++ arg ++ crlf)
      ('*' :: (decimal args.length ++ crlf))
    if cmd.length ≠ totlen then .error .assertion else .ok (.command cmd (toInt32 totlen))
  else .ok (.error (-1))

/-! ### Format strings -/

/-- The types of the arguments behind a format. -/
inductive VaType where
  | pointer
  | size
  | int
  | long
  | longLong
  | double
  deriving DecidableEq, Repr

/-- An argument behind a format; a pointer is the bytes that can be read from it. -/
inductive VaArg (F : Type) where
  | pointer (bytes : List Char)
  | size (n : Nat)
  | int (n : Int)
  | long (n : Int)
  | longLong (n : Int)
  | double (x : F)

def VaArg.type {F : Type} : VaArg F → VaType
  | .pointer _ => .pointer
  | .size _ => .size
  | .int _ => .int
  | .long _ => .long
  | .longLong _ => .longLong
  | .double _ => .double

def intfmts : List Char := "diouxX".toList

def doublefmts : List Char := "eEfFgGaA".toList

def formatFlags : List Char := "#0-+ ".toList

/-- An integer conversion behind its length modifier. -/
def sizedConversion (type : VaType) (p : List Char) : Option (VaType × List Char) :=
  match p.head? with
  | some c => if c ∈ intfmts then some (type, p) else none
  | none => none

/-- The conversion that begins behind a `%`: the type of its argument, and the
format from its last character on. At the end of the format `strchr` finds the
terminator, which makes it an integer conversion. -/
def printfConversion (p : List Char) : Option (VaType × List Char) :=
  let p := p.dropWhile (· ∈ formatFlags)
  let p := p.dropWhile Char.isDigit
  let p := if p.head? = some '.' then (p.drop 1).dropWhile Char.isDigit else p
  match p with
  | [] => some (.int, [])
  | c :: rest =>
      if c ∈ intfmts then some (.int, p)
      else if c ∈ doublefmts then some (.double, p)
      else if c = 'h' ∧ rest.head? = some 'h' then sizedConversion .int (p.drop 2)
      else if c = 'h' then sizedConversion .int (p.drop 1)
      else if c = 'l' ∧ rest.head? = some 'l' then sizedConversion .longLong (p.drop 2)
      else if c = 'l' then sizedConversion .long (p.drop 1)
      else none

/-- `va_arg` -/
def vaArg {F : Type} (type : VaType) :
    List (VaArg F) → Except FormatFault (VaArg F × List (VaArg F))
  | [] => .error .badArgument
  | arg :: ap => if arg.type = type then .ok (arg, ap) else .error .badArgument

/-- `va_arg(ap,char*)` -/
def vaPointer {F : Type} : List (VaArg F) → Except FormatFault (List Char × List (VaArg F))
  | .pointer bytes :: ap => .ok (bytes, ap)
  | _ => .error .badArgument

/-- The bytes of `va_arg(ap,char*)` and `va_arg(ap,size_t)`. -/
def vaBytes {F : Type} : List (VaArg F) → Except FormatFault (List Char × List (VaArg F))
  | .pointer bytes :: .size n :: ap =>
      if n ≤ bytes.length then .ok (bytes.take n, ap) else .error .badPointer
  | _ => .error .badArgument

section Format

variable {F : Type} (vsnprintf : List Char → VaArg F → List Char)

/-- The variables of the loop of `redisvFormatCommand`; `c` is the rest of the
format. -/
structure FormatState (F : Type) where
  c : List Char
  ap : List (VaArg F)
  argv : List (List Char) := []
  curarg : List Char := []
  touched : Bool := false
  totlen : Int := 0

/-- What leaves the loop: an error, or the end of the format. -/
inductive FormatEnd (F : Type) where
  | error (code : Int)
  | finished (s : FormatState F)

/-- The bytes that a conversion appends, the arguments that are left, and the
format that is left. -/
inductive Converted (F : Type) where
  | invalid
  | text (bytes : List Char) (ap : List (VaArg F)) (c : List Char)

/-- The last case of the `switch`: a conversion of `printf`. -/
def convertPrintf (memory : Bool) (x : Char) (rest : List Char) (ap : List (VaArg F)) :
    Except FormatFault (Converted F) :=
  match printfConversion (x :: rest) with
  | none => .ok .invalid
  | some (type, p) => do
      let (arg, ap) ← vaArg type ap
      let c := '%' :: x :: rest
      let l := c.length - p.length + 1
      -- `_format` has room for so many characters
      if l < 14 then
        let bytes := vsnprintf (c.take l) arg
        if p = [] ∧ (memory ∨ bytes = []) then .error .pastEnd
        else .ok (.text bytes ap (p.drop 1))
      else .ok (.text [] ap rest)

/-- The `switch` on `c[1]`, which is `x`. -/
def convert (memory : Bool) (x : Char) (rest : List Char) (ap : List (VaArg F)) :
    Except FormatFault (Converted F) :=
  if x = 's' then (vaPointer ap).map fun (bytes, ap) => .text (cText bytes) ap rest
  else if x = 'b' then (vaBytes ap).map fun (bytes, ap) => .text bytes ap rest
  else if x = '%' then .ok (.text ['%'] ap rest)
  else convertPrintf vsnprintf memory x rest ap

/-- One turn of the loop. -/
def formatBody (memory : Bool) (s : FormatState F) :
    Except FormatFault (FormatState F ⊕ FormatEnd F) :=
  match s.c with
  | [] => .ok (.inr (.finished s))
  | '%' :: x :: rest => do
      match ← convert vsnprintf memory x rest s.ap with
      | .invalid => .ok (.inr (.error (-2)))
      | .text bytes ap c =>
          if bytes ≠ [] ∧ ¬memory then .ok (.inr (.error (-1)))
          else .ok (.inl { s with c := c, ap := ap, curarg := s.curarg ++ bytes, touched := true })
  | x :: rest =>
      if x = ' ' then
        if s.touched then
          if memory then
            .ok (.inl { s with
              c := rest, argv := s.argv ++ [s.curarg], curarg := [], touched := false,
              totlen := toInt32 (s.totlen + bulklen s.curarg.length) })
          else .ok (.inr (.error (-1)))
        else .ok (.inl { s with c := rest })
      else if memory then
        .ok (.inl { s with c := rest, curarg := s.curarg ++ [x], touched := true })
      else .ok (.inr (.error (-1)))

/-- The last argument, when it was touched. -/
def FormatState.finish (s : FormatState F) : FormatState F :=
  if s.touched then
    { s with argv := s.argv ++ [s.curarg], totlen := toInt32 (s.totlen + bulklen s.curarg.length) }
  else s

/-- A turn with the number it has. -/
def formatTurn (memory : Nat → Bool) (s : Nat × FormatState F) :
    Except FormatFault ((Nat × FormatState F) ⊕ FormatEnd F) :=
  (formatBody vsnprintf (memory s.1) s.2).map (Sum.map (fun s' => (s.1 + 1, s')) id)

def redisvFormatCommand (memory : Nat → Bool) (format : List Char) (ap : List (VaArg F)) :
    Except FormatFault Formatted :=
  if memory 0 then do
    match ← runLoop (attempt (formatTurn vsnprintf memory)) (fun _ => .error .pastEnd)
        (format.length + 1) (1, { c := cText format, ap := ap }) with
    | .error code => .ok (.error code)
    | .finished s =>
        if s.touched ∧ ¬memory (format.length + 2) then .ok (.error (-1))
        else
          let s := s.finish
          buildCommand (memory (format.length + 3)) s.argv
            (toInt32 (s.totlen + (1 + countDigits s.argv.length + 2 : Nat)))
  else .ok (.error (-1))

end Format

end CloRedis
