import CloRedis.Hiredis.Delivery
import CloRedis.Hiredis.Format

/-!
A command that fits into an `int` is built as it should be, and one that does
not is refused. Its bytes are those of an array of strings, so a reader gives
back the words.
-/

namespace CloRedis

open Library

variable {argv : List (List Char)} {memory : Bool}

/-! ### Lengths -/

theorem length_decimal (n : Nat) : (decimal n).length = countDigits n := by
  rw [decimal_natCast, countDigits_eq]

theorem length_bulk (arg : List Char) : (bulk arg).length = bulklen arg.length := by
  rw [bulk, bulklen, List.length_cons, List.length_append, length_append_crlf, length_append_crlf,
    length_decimal]
  omega

theorem length_bulks (argv : List (List Char)) :
    (argv.map bulk).flatten.length = (argv.map fun arg => bulklen arg.length).sum := by
  rw [List.length_flatten, List.map_map]
  congr 1
  exact List.map_congr_left fun arg _ => length_bulk arg

theorem length_arrayHead (n : Nat) : (arrayHead n).length = 1 + countDigits n + 2 := by
  rw [arrayHead, List.length_cons, length_append_crlf, length_decimal]
  omega

theorem length_commandBytes (argv : List (List Char)) :
    (commandBytes argv).length =
      1 + countDigits argv.length + 2 + (argv.map fun arg => bulklen arg.length).sum := by
  rw [commandBytes, List.length_append, length_arrayHead, length_bulks]

theorem countDigits_le (n : Nat) : countDigits n ≤ n + 1 := by
  rw [countDigits_eq, Nat.length_toDigits_le_iff (by decide) (Nat.succ_pos n)]
  exact (Nat.lt_succ_self n).trans (Nat.lt_pow_self (by decide))

/-- Five bytes for every argument. -/
theorem length_le_sum (argv : List (List Char)) :
    5 * argv.length ≤ (argv.map fun arg => bulklen arg.length).sum := by
  induction argv with
  | nil => exact Nat.le_refl _
  | cons arg argv ih =>
      rw [List.length_cons, List.map_cons, List.sum_cons, bulklen]
      have hpos : 0 < countDigits arg.length := by
        rw [countDigits_eq]
        exact Nat.length_toDigits_pos
      omega

/-! ### The block -/

theorem mallocSize_of_small {n : Nat} (h : n + 1 < 2 ^ 31) :
    mallocSize (toInt32 n) = some (n + 1) := by
  have hfits : toInt32 (toInt32 n + 1) = (n + 1 : Nat) := by
    rw [toInt32_of_lt (n := n) (by omega) (by omega), toInt32_of_lt (by omega) (by omega)]
    rfl
  have hsize : ((n + 1 : Nat) % 2 ^ 64 : Int).toNat = n + 1 := by omega
  rw [mallocSize, hfits, hsize]
  exact if_pos (by omega)

theorem mallocSize_of_large {n : Nat} (hlow : 2 ^ 31 ≤ n + 1) (hhigh : n + 1 < 2 ^ 32) :
    mallocSize (toInt32 n) = none := by
  have hwrap : toInt32 (toInt32 n + 1) = (n : Int) + 1 - 2 ^ 32 := by
    rw [toInt32, toInt32, Int.bmod_add_bmod, Int.bmod_eq_iff (by decide)]
    refine ⟨by omega, by omega, ?_⟩
    omega
  have hsize : 2 ^ 63 ≤ (((n : Int) + 1 - 2 ^ 32) % 2 ^ 64).toNat := by omega
  rw [mallocSize, hwrap]
  exact if_neg (not_lt.mpr hsize)

variable (argv) in
/-- The arguments behind what is written. -/
theorem writeArguments_eq (size : Nat) (cmd : List Char)
    (h : (cmd ++ (argv.map bulk).flatten).length + 1 ≤ size) :
    argv.foldlM (fun cmd arg => do
      let cmd ← sprintfTo size cmd ('$' :: (decimal arg.length ++ crlf))
      let cmd ← copyTo size cmd arg
      copyTo size cmd crlf) cmd = .ok (cmd ++ (argv.map bulk).flatten) := by
  induction argv generalizing cmd with
  | nil =>
      rw [List.foldlM_nil, List.map_nil, List.flatten_nil, List.append_nil]
      rfl
  | cons arg argv ih =>
      have hsplit : cmd ++ ((arg :: argv).map bulk).flatten =
          cmd ++ '$' :: (decimal arg.length ++ crlf) ++ arg ++ crlf ++ (argv.map bulk).flatten := by
        rw [List.map_cons, List.flatten_cons, bulk]
        simp only [List.append_assoc, List.cons_append]
      rw [hsplit] at h ⊢
      have hroom := h
      simp only [List.length_append, List.length_cons] at hroom
      have hlater := ih _ h
      rw [List.foldlM_cons]
      have hhead : sprintfTo size cmd ('$' :: (decimal arg.length ++ crlf)) =
          .ok (cmd ++ '$' :: (decimal arg.length ++ crlf)) := by
        apply if_pos
        simp only [List.length_append, List.length_cons]
        omega
      have hbody : copyTo size (cmd ++ '$' :: (decimal arg.length ++ crlf)) arg =
          .ok (cmd ++ '$' :: (decimal arg.length ++ crlf) ++ arg) := by
        apply if_pos
        simp only [List.length_append, List.length_cons]
        omega
      have htail : copyTo size (cmd ++ '$' :: (decimal arg.length ++ crlf) ++ arg) crlf =
          .ok (cmd ++ '$' :: (decimal arg.length ++ crlf) ++ arg ++ crlf) := by
        apply if_pos
        simp only [List.length_append, List.length_cons]
        omega
      rw [hhead, ok_do, hbody, ok_do, htail]
      exact hlater

theorem buildCommand_of_small (h : (commandBytes argv).length + 1 < 2 ^ 31) :
    buildCommand memory argv (toInt32 (commandBytes argv).length) =
      if memory then .ok (.command (commandBytes argv) (commandBytes argv).length)
      else .ok (.error (-1)) := by
  cases memory with
  | false => rfl
  | true =>
      have hlen : toInt32 (commandBytes argv).length = ((commandBytes argv).length : Int) :=
        toInt32_of_lt (by omega) (by omega)
      have hhead : sprintfTo ((commandBytes argv).length + 1) []
          ('*' :: (decimal argv.length ++ crlf)) = .ok (arrayHead argv.length) := by
        apply if_pos
        rw [commandBytes, List.length_append, List.length_nil, arrayHead]
        omega
      have hbody := writeArguments_eq argv ((commandBytes argv).length + 1)
        (arrayHead argv.length) (Nat.le_refl _)
      have hend : copyTo ((commandBytes argv).length + 1) (commandBytes argv) ['\x00'] =
          .ok (commandBytes argv ++ ['\x00']) := if_pos (Nat.le_refl _)
      rw [buildCommand, if_pos rfl, if_pos rfl, mallocSize_of_small h]
      dsimp only
      rw [hhead, ok_do, hbody, ok_do, ← commandBytes,
        if_neg (not_not.mpr rfl), hend, hlen]
      rfl

/-- A command that needs more than an `int` is refused. -/
theorem buildCommand_of_large (hlow : 2 ^ 31 ≤ (commandBytes argv).length + 1)
    (hhigh : (commandBytes argv).length + 1 < 2 ^ 32) :
    buildCommand memory argv (toInt32 (commandBytes argv).length) = .ok (.error (-1)) := by
  rw [buildCommand, mallocSize_of_large hlow hhigh, ite_self]

theorem mallocSize_lt {totlen : Int} {size : Nat} (h : mallocSize totlen = some size) :
    size < 2 ^ 31 := by
  have hlow : -(2 ^ 31) ≤ toInt32 (totlen + 1) := Int.le_bmod (by decide)
  have hhigh : toInt32 (totlen + 1) < 2 ^ 31 := Int.bmod_lt (by decide)
  unfold mallocSize at h
  dsimp only at h
  split at h
  · cases h
    omega
  · cases h

theorem sprintfTo_ok {size : Nat} {cmd text cmd' : List Char}
    (h : sprintfTo size cmd text = .ok cmd') : cmd' = cmd ++ text := by
  unfold sprintfTo at h
  split at h
  · cases h
    rfl
  · cases h

theorem copyTo_ok {size : Nat} {cmd text cmd' : List Char} (h : copyTo size cmd text = .ok cmd') :
    cmd' = cmd ++ text ∧ cmd.length + text.length ≤ size := by
  unfold copyTo at h
  split at h
  · rename_i hroom
    cases h
    exact ⟨rfl, hroom⟩
  · cases h

theorem writeArguments_ok {size : Nat} {cmd cmd' : List Char}
    (h : argv.foldlM (fun cmd arg => do
      let cmd ← sprintfTo size cmd ('$' :: (decimal arg.length ++ crlf))
      let cmd ← copyTo size cmd arg
      copyTo size cmd crlf) cmd = .ok cmd') : cmd' = cmd ++ (argv.map bulk).flatten := by
  induction argv generalizing cmd with
  | nil =>
      cases h
      rw [List.map_nil, List.flatten_nil, List.append_nil]
  | cons arg argv ih =>
      rw [List.foldlM_cons] at h
      obtain ⟨cmd₃, harg, hrest⟩ := do_ok.mp h
      obtain ⟨cmd₁, hhead, h₁⟩ := do_ok.mp harg
      obtain ⟨cmd₂, hbody, htail⟩ := do_ok.mp h₁
      rw [ih hrest, (copyTo_ok htail).1, (copyTo_ok hbody).1, sprintfTo_ok hhead, List.map_cons,
        List.flatten_cons, bulk]
      simp only [List.append_assoc, List.cons_append]

/-- Whatever the arguments are: a command that is returned is the right one. -/
theorem buildCommand_ok {totlen len : Int} {cmd : List Char}
    (h : buildCommand memory argv totlen = .ok (.command cmd len)) :
    cmd = commandBytes argv ∧ len = cmd.length ∧ cmd.length + 1 < 2 ^ 31 := by
  unfold buildCommand at h
  split at h
  · cases h
  · rename_i size hsize
    have hmax : size < 2 ^ 31 := by
      split at hsize
      · exact mallocSize_lt hsize
      · cases hsize
    obtain ⟨cmd₁, hhead, h⟩ := do_ok.mp h
    obtain ⟨cmd₂, hbody, h⟩ := do_ok.mp h
    split at h
    · cases h
    · rename_i hlen
      obtain ⟨cmd₃, hend, h⟩ := do_ok.mp h
      have hroom := (copyTo_ok hend).2
      cases h
      rw [List.length_singleton] at hroom
      refine ⟨?_, ?_, lt_of_le_of_lt hroom hmax⟩
      · rw [writeArguments_ok hbody, sprintfTo_ok hhead]
        rfl
      · rw [← not_not.mp hlen]
        exact toInt32_of_lt (by omega) (by omega)

/-- The only error is that there is no memory. -/
theorem buildCommand_error {totlen code : Int}
    (h : buildCommand memory argv totlen = .ok (.error code)) : code = -1 := by
  unfold buildCommand at h
  split at h
  · cases h
    rfl
  · obtain ⟨cmd₁, _, h⟩ := do_ok.mp h
    obtain ⟨cmd₂, _, h⟩ := do_ok.mp h
    split at h
    · cases h
    · obtain ⟨cmd₃, _, h⟩ := do_ok.mp h
      cases h

/-! ### Totals -/

/-- Adding the lengths one by one in an `int`. -/
theorem foldl_bulklen (argv : List (List Char)) (n : Nat) :
    argv.foldl (fun totlen arg => toInt32 (totlen + bulklen arg.length)) (toInt32 n) =
      toInt32 (n + (argv.map fun arg => bulklen arg.length).sum : Nat) := by
  induction argv generalizing n with
  | nil => rw [List.foldl_nil, List.map_nil, List.sum_nil, Nat.add_zero]
  | cons arg argv ih =>
      have hstep : toInt32 (toInt32 n + bulklen arg.length) =
          toInt32 (n + bulklen arg.length : Nat) := by
        simp only [toInt32, Int.bmod_add_bmod, Nat.cast_add]
      rw [List.foldl_cons, hstep, ih, List.map_cons, List.sum_cons, Nat.add_assoc]

theorem foldl_total (h : (commandBytes argv).length < 2 ^ 32) :
    argv.foldl (fun totlen arg => toInt32 (totlen + bulklen arg.length))
      (1 + countDigits argv.length + 2 : Int) = toInt32 (commandBytes argv).length := by
  have hdigits := countDigits_le argv.length
  have hfive := length_le_sum argv
  rw [length_commandBytes] at h ⊢
  have hstart : (1 + countDigits argv.length + 2 : Int) =
      toInt32 (1 + countDigits argv.length + 2 : Nat) := by
    rw [toInt32_of_lt (by omega) (by omega)]
    rfl
  rw [hstart, foldl_bulklen]

theorem foldl_bulklen_nat (argv : List (List Char)) (n : Nat) :
    argv.foldl (fun totlen arg => totlen + bulklen arg.length) n =
      n + (argv.map fun arg => bulklen arg.length).sum := by
  induction argv generalizing n with
  | nil => rfl
  | cons arg argv ih => rw [List.foldl_cons, ih, List.map_cons, List.sum_cons, Nat.add_assoc]

theorem foldl_bulk (hshort : ∀ arg ∈ argv, arg.length < 2 ^ 32) (cmd : List Char) :
    argv.foldl (fun cmd arg =>
      cmd ++ ('$' :: (decimal (arg.length % 2 ^ 32 : Nat) ++ crlf)) ++ arg ++ crlf) cmd =
      cmd ++ (argv.map bulk).flatten := by
  induction argv generalizing cmd with
  | nil => rw [List.foldl_nil, List.map_nil, List.flatten_nil, List.append_nil]
  | cons arg argv ih =>
      obtain ⟨harg, hrest⟩ := List.forall_mem_cons.mp hshort
      rw [List.foldl_cons, ih hrest, Nat.mod_eq_of_lt harg, List.map_cons, List.flatten_cons, bulk]
      simp only [List.append_assoc, List.cons_append]

/-! ### The two functions on arrays -/

theorem argvBytes_lengths {lens : List Nat} {args : List (List Char)}
    (hlens : lens.length = argv.length) (h : argvBytes argv lens = .ok args) :
    lens = args.map List.length := by
  induction argv generalizing lens args with
  | nil =>
      cases h
      exact List.length_eq_zero_iff.mp hlens
  | cons arg argv ih =>
      cases lens with
      | nil => cases hlens
      | cons len lens =>
          obtain ⟨bytes, harg, h⟩ := do_ok.mp h
          obtain ⟨rest, hrest, h⟩ := do_ok.mp h
          cases h
          unfold argBytes at harg
          split at harg
          · rename_i hle
            cases harg
            rw [List.map_cons, List.length_take, Nat.min_eq_left hle,
              ← ih (Nat.succ.inj hlens) hrest]
          · cases harg

theorem argvLens_length {argvlen : Option (List Nat)} {lens : List Nat}
    (h : argvLens argv argvlen = .ok lens) : lens.length = argv.length := by
  cases argvlen with
  | none =>
      cases h
      exact List.length_map _
  | some argvlen =>
      rw [argvLens] at h
      split at h
      · rename_i hle
        cases h
        rw [List.length_take, Nat.min_eq_left hle]
      · cases h

section Arrays

variable {argvlen : Option (List Nat)} {args : List (List Char)}

/-- The arguments as bytes. They have the bytes that their lengths say. -/
def Supplies (argv : List (List Char)) (argvlen : Option (List Nat)) (args : List (List Char)) :
    Prop :=
  ∃ lens, argvLens argv argvlen = .ok lens ∧ argvBytes argv lens = .ok args

theorem Supplies.lens (h : Supplies argv argvlen args) :
    argv.length = args.length ∧ argvLens argv argvlen = .ok (args.map List.length) ∧
      argvBytes argv (args.map List.length) = .ok args := by
  obtain ⟨lens, hlens, hargs⟩ := h
  have hlength := argvLens_length hlens
  obtain rfl := argvBytes_lengths hlength hargs
  exact ⟨hlength.symm.trans (List.length_map _), hlens, hargs⟩

theorem Supplies.redisFormatCommandArgv (h : Supplies argv argvlen args)
    (hsmall : (commandBytes args).length < 2 ^ 32) :
    redisFormatCommandArgv true argv argvlen =
      buildCommand true args (toInt32 (commandBytes args).length) := by
  obtain ⟨hlength, hlens, hargs⟩ := h.lens
  rw [CloRedis.redisFormatCommandArgv, hlens, ok_do, hlength, List.foldl_map,
    foldl_total hsmall]
  by_cases hblock : (mallocSize (toInt32 (commandBytes args).length)).isSome = true
  · rw [if_pos ⟨rfl, hblock⟩, hargs, ok_do]
  · rw [if_neg fun h => hblock h.2, buildCommand, if_pos rfl,
      Option.not_isSome_iff_eq_none.mp hblock]

/-- The command, when it fits into an `int`; a refusal, up to twice as much. No
byte is written outside the block, and its length is the one announced. -/
theorem redisFormatCommandArgv_eq (hargs : Supplies argv argvlen args) :
    ((commandBytes args).length + 1 < 2 ^ 31 →
      redisFormatCommandArgv true argv argvlen =
        .ok (.command (commandBytes args) (commandBytes args).length)) ∧
    (2 ^ 31 ≤ (commandBytes args).length + 1 → (commandBytes args).length + 1 < 2 ^ 32 →
      redisFormatCommandArgv true argv argvlen = .ok (.error (-1))) := by
  constructor
  · intro hsmall
    rw [hargs.redisFormatCommandArgv (by omega), buildCommand_of_small hsmall, if_pos rfl]
  · intro hlow hhigh
    rw [hargs.redisFormatCommandArgv (by omega), buildCommand_of_large hlow hhigh]

/-- A value with a NUL in it. -/
def setArgv : List (List Char) := [['S', 'E', 'T'], ['k'], ['a', '\x00', 'b']]

theorem supplies_setArgv : Supplies setArgv (some [3, 1, 3]) setArgv := ⟨[3, 1, 3], rfl, rfl⟩

theorem redisFormatCommandArgv_of_set :
    redisFormatCommandArgv true setArgv (some [3, 1, 3]) =
      .ok (.command (commandBytes setArgv) 29) :=
  (redisFormatCommandArgv_eq supplies_setArgv).1 (by decide +kernel)

/-- The two functions make the same command. -/
theorem redisFormatSdsCommandArgv_eq (hargs : Supplies argv argvlen args)
    (hsmall : (commandBytes args).length + 1 < 2 ^ 31) :
    redisFormatSdsCommandArgv true argv argvlen = redisFormatCommandArgv true argv argvlen := by
  obtain ⟨hlength, hlens, hbytes⟩ := hargs.lens
  have hshort : ∀ arg ∈ args, arg.length < 2 ^ 32 := by
    intro arg harg
    have hle := List.single_le_sum (fun _ _ => Nat.zero_le _) _
      (List.mem_map_of_mem (f := fun arg : List Char => bulklen arg.length) harg)
    rw [length_commandBytes] at hsmall
    rw [bulklen] at hle
    omega
  have htotal : args.foldl (fun totlen arg => totlen + bulklen arg.length)
      (1 + countDigits args.length + 2) = (commandBytes args).length := by
    rw [foldl_bulklen_nat, length_commandBytes]
  have hbulk := foldl_bulk hshort ('*' :: (decimal args.length ++ crlf))
  have hlen : toInt32 (commandBytes args).length = ((commandBytes args).length : Int) :=
    toInt32_of_lt (by omega) (by omega)
  have hplain : redisFormatCommandArgv true argv argvlen =
      .ok (.command (commandBytes args) (commandBytes args).length) := by
    rw [hargs.redisFormatCommandArgv (by omega), buildCommand_of_small hsmall, if_pos rfl]
  rw [hplain, redisFormatSdsCommandArgv, hlens, ok_do, if_pos rfl, hbytes, ok_do, hlength,
    List.foldl_map]
  dsimp only
  rw [hbulk, htotal, ← arrayHead, ← commandBytes, if_neg (not_not.mpr rfl), hlen]

theorem redisFormatSdsCommandArgv_of_set :
    redisFormatSdsCommandArgv true setArgv (some [3, 1, 3]) =
      redisFormatCommandArgv true setArgv (some [3, 1, 3]) :=
  redisFormatSdsCommandArgv_eq supplies_setArgv (by decide +kernel)

end Arrays

/-! ### Reading a command -/

/-- An argument as it is read. -/
def bulkReply (arg : List Char) : HiredisReply := { type := .string, str := arg }

theorem commandBytes_eq_encode (argv : List (List Char)) :
    commandBytes argv = (arrayOf (argv.map bulkReply)).encode := by
  rw [arrayOf, HiredisReply.encode, HiredisReply.encodeAll_eq, List.length_map, List.map_map]
  rfl

theorem bulkReply_sendable (arg : List Char) (h : arg.length < 2 ^ 63) (depth : Nat) :
    (bulkReply arg).Sendable depth := by
  have hleaf : (bulkReply arg).SendableLeaf := ⟨rfl, rfl, h⟩
  cases depth with
  | zero => exact hleaf
  | succ depth => exact .inl hleaf

/-- A command is an array that a reader can read. -/
theorem command_sendable (h : (commandBytes argv).length < 2 ^ 31) :
    (arrayOf (argv.map bulkReply)).Sendable maxDepth := by
  have hfive := length_le_sum argv
  rw [length_commandBytes] at h
  refine .inr ⟨rfl, ?_, ?_⟩
  · show (argv.map bulkReply).length ≤ intMax
    rw [List.length_map, intMax]
    omega
  · intro item hitem
    obtain ⟨arg, harg, rfl⟩ := List.mem_map.mp hitem
    have hle := List.single_le_sum (fun _ _ => Nat.zero_le _) _
      (List.mem_map_of_mem (f := fun arg : List Char => bulklen arg.length) harg)
    rw [bulklen] at hle
    exact bulkReply_sendable arg (by omega) _

end CloRedis
