import CloRedis.Hiredis.Edits

/-!
How often a buffer moves. `sdsMakeRoomFor` doubles the capacity up to a megabyte
and then adds one, so a buffer that never holds more than `n` bytes gets a new
block a few times and once for every megabyte, however many calls append to it
and take bytes off its front.
-/

namespace CloRedis

open Library

/-- How far a capacity has grown: it is doubled up to a megabyte, and then goes
up by a megabyte. -/
def potential (capacity : Nat) : Nat :=
  min (Nat.log 2 (capacity + 2)) 20 + capacity / sdsMaxPrealloc

theorem potential_mono {c d : Nat} (h : c ≤ d) : potential c ≤ potential d := by
  have hlog : Nat.log 2 (c + 2) ≤ Nat.log 2 (d + 2) := Nat.log_mono_right (by omega)
  have hdiv : c / sdsMaxPrealloc ≤ d / sdsMaxPrealloc := Nat.div_le_div_right h
  unfold potential
  omega

theorem one_le_potential (c : Nat) : 1 ≤ potential c := by
  have hlog : Nat.log 2 2 ≤ Nat.log 2 (c + 2) := Nat.log_mono_right (by omega)
  have htwo : Nat.log 2 2 = 1 := Nat.log_pow (by decide) 1
  rw [htwo] at hlog
  exact Nat.le_add_right_of_le (le_min hlog (by decide))

/-- A block that is asked for is a step further. -/
theorem potential_grown {c n : Nat} (h : c < n) :
    potential c + 1 ≤ potential (Sds.grownCapacity n) := by
  have hprealloc : sdsMaxPrealloc = 2 ^ 20 := rfl
  unfold potential Sds.grownCapacity
  rw [hprealloc]
  split_ifs with hsmall
  · have hlog : Nat.log 2 (c + 2) + 1 ≤ Nat.log 2 (n * 2 + 2) := by
      rw [← Nat.log_mul_base (by decide) (by omega)]
      exact Nat.log_mono_right (by omega)
    rcases Nat.lt_or_ge (Nat.log 2 (c + 2)) 20 with hlow | hhigh
    · omega
    · -- the last doubling crosses the megabyte
      have hpow : 2 ^ 20 ≤ c + 2 := (Nat.pow_le_pow_right (by decide) hhigh).trans
        (Nat.pow_log_le_self 2 (by omega))
      omega
  · have hlog : Nat.log 2 (c + 2) ≤ Nat.log 2 (n + 2 ^ 20 + 2) := Nat.log_mono_right (by omega)
    omega

theorem potential_le (n : Nat) : potential (n + sdsMaxPrealloc) ≤ 21 + n / sdsMaxPrealloc := by
  have hdiv : (n + sdsMaxPrealloc) / sdsMaxPrealloc = n / sdsMaxPrealloc + 1 :=
    Nat.add_div_right n (by decide)
  have hlow : min (Nat.log 2 (n + sdsMaxPrealloc + 2)) 20 ≤ 20 := min_le_right _ _
  unfold potential
  rw [hdiv]
  omega

namespace SdsEdit

/-- What is done to a buffer: bytes are appended, and bytes in front are cut. -/
def Buffering : SdsEdit → Prop
  | catlen _ => True
  | range _ _ => True
  | _ => False

/-- An append that the allocator grants another block. -/
def moves (s : Sds) : Allocation × SdsEdit → Bool
  | (m, catlen t) => m.granted && decide (s.sdsavail < t.length)
  | _ => false

variable {s s' : Sds} {n : Nat}

/-- How far a buffer for at most `n` bytes has grown. -/
def progress (n : Nat) (s : Sds) : Nat := potential (min s.sdsalloc (n + sdsMaxPrealloc))

theorem progress_step {op : Allocation × SdsEdit} (hs : s.Valid ∧ s.type ≠ .type5)
    (hop : op.2.Buffering ∧ s.len + op.2.added ≤ n) (hn : n + sdsMaxPrealloc < 2 ^ 62)
    (hstep : step s op = .ok s') :
    (s'.Valid ∧ s'.type ≠ .type5) ∧ progress n s + (moves s op).toNat ≤ progress n s' := by
  obtain ⟨hvalid, hfield⟩ := hs
  obtain ⟨hkind, hbound⟩ := hop
  obtain ⟨m, op⟩ := op
  unfold step at hstep
  dsimp only at hstep hkind hbound
  cases op with
  | catlen t =>
      rw [added] at hbound
      have hcat := hvalid.sdscatlen (m := m) (t := t) (by omega)
      rw [call] at hstep
      generalize Sds.sdscatlen m s t = v at hcat hstep
      cases hcat with
      | @string s₁ hcat =>
          obtain ⟨hshows, hstores⟩ := hcat
          obtain ⟨hfield', hcapacity⟩ := hstores hfield
          cases hstep
          refine ⟨⟨hshows.1, hfield'⟩, ?_⟩
          show progress n s + (m.granted && decide (s.sdsavail < t.length)).toNat ≤ progress n s₁
          rw [progress, progress, hcapacity, Sds.roomFor]
          split_ifs with henough
          · rw [decide_eq_false (not_lt.mpr henough), Bool.and_false]
            exact Nat.le_refl _
          · have havail := hvalid.sdsavail_eq
            have hlen := hvalid.len_le
            have hshort : s.sdsalloc < s.len + t.length := by omega
            have hgrown := potential_grown hshort
            have hle := Sds.grownCapacity_le (s.len + t.length)
            have hone := Bool.toNat_le (m.granted && decide (s.sdsavail < t.length))
            rw [min_eq_left (by omega), min_eq_left (by omega)]
            omega
      | null hnone =>
          cases hstep
          refine ⟨⟨hvalid, hfield⟩, ?_⟩
          show progress n s + (m.granted && decide (s.sdsavail < t.length)).toNat ≤ progress n s
          rcases hnone with hnone | hlarge
          · rw [hnone, Bool.false_and]
            exact Nat.le_refl _
          · omega
  | range start stop =>
      obtain ⟨s₁, hrange, hshows, hstores⟩ := hvalid.sdsrange start stop
      obtain ⟨hfield', hcapacity⟩ := hstores hfield
      rw [call, hrange] at hstep
      cases hstep
      refine ⟨⟨hshows.1, hfield'⟩, ?_⟩
      show progress n s + 0 ≤ progress n s₁
      rw [progress, progress, hcapacity]
      exact Nat.le_refl _
  | _ => exact absurd hkind not_false

/-- A buffer that never holds more than `n` bytes gets at most 20 blocks and one
for every megabyte of `n`, in runs of any length. -/
theorem run_moves {ops : List (Allocation × SdsEdit)} (hvalid : s.Valid) (hfield : s.type ≠ .type5)
    (hops : Along step (fun s op => op.2.Buffering ∧ s.len + op.2.added ≤ n) s ops)
    (hn : n + sdsMaxPrealloc < 2 ^ 62) :
    ∃ s', run step s ops = .ok s' ∧ s'.Valid ∧
      (trace step moves s ops).count true ≤ 20 + n / sdsMaxPrealloc := by
  have hsteps (s : Sds) (op : Allocation × SdsEdit) (hs : s.Valid)
      (hop : op.2.Buffering ∧ s.len + op.2.added ≤ n) :
      ∃ s', step s op = .ok s' ∧ s'.Valid ∧ Effect s.text op s'.text := by
    obtain ⟨m, op⟩ := op
    obtain ⟨hkind, hbound⟩ := hop
    dsimp only at hkind hbound
    cases op with
    | catlen t =>
        apply step_shows hs
        show t.length < 2 ^ 62
        rw [added] at hbound
        omega
    | range start stop => exact step_of_returns hs (range_returns hs start stop _)
    | _ => exact absurd hkind not_false
  obtain ⟨s', hrun, ⟨hvalid', _⟩, _⟩ := run_follows (I := fun s => s.Valid ∧ s.type ≠ .type5)
    (A := Sds.text) (R := Effect) (fun s op hs hop => by
      obtain ⟨s', hstep, _, heffect⟩ := hsteps s op hs.1 hop
      exact ⟨s', hstep, (progress_step hs hop hn hstep).1, heffect⟩) ⟨hvalid, hfield⟩ hops
  have hcount : progress n s + (trace step moves s ops).count true ≤ progress n s' :=
    count_trace_le (fun s op s' hs hop hstep => progress_step hs hop hn hstep) ⟨hvalid, hfield⟩
      hops hrun
  have hfirst : 1 ≤ progress n s := one_le_potential _
  have hlast : progress n s' ≤ potential (n + sdsMaxPrealloc) := potential_mono (min_le_right _ _)
  have hbound := potential_le n
  exact ⟨s', hrun, hvalid', by omega⟩

/-- Bytes are appended to an empty buffer, one is cut off, and more are appended. -/
def bufferEdits : List (Allocation × SdsEdit) :=
  [({}, catlen "ab".toList), ({}, range 1 (-1)), ({}, catlen "cde".toList)]

theorem run_moves_of_buffer :
    ∃ s', run step emptySds bufferEdits = .ok s' ∧ s'.Valid ∧
      (trace step moves emptySds bufferEdits).count true ≤ 20 + 8 / sdsMaxPrealloc := by
  refine run_moves emptySds_valid (by decide) ?_ (by decide)
  apply along_cons rfl ⟨trivial, by decide⟩
  apply along_cons rfl ⟨trivial, by decide⟩
  apply along_cons rfl ⟨trivial, by decide⟩
  exact along_nil _ _ _

end SdsEdit

end CloRedis
