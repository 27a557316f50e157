import CloRedis.Manager.Generations

/-!
`Init` and `InitEx` on any manager that may be set up, new or flushed.
-/

namespace CloRedis

open Library

variable {C D W : Type}

namespace ManagerWorld

variable {w w' : ManagerWorld C} {s : Slot} {ptr : PoolPtr} {cell cell' : PoolCell C}
variable {h : Hiredis C D W}

/-- A pool in use stays in use while another slot changes. -/
theorem PoolChange.serving {other : PoolPtr} (hchange : PoolChange w w' ptr cell)
    (hat : w.Serving other cell') (hne : other.slot ≠ ptr.slot) : w'.Serving other cell' := by
  have hptr := (hchange.slotPtr _ hne).trans hat.slotPtr
  have hcell := (hchange.others _ hne).trans hat.poolAt
  rw [poolAt, hptr] at hcell
  exact ⟨hptr, hcell, hat.intact⟩

/-- A handle gives back what its pool has lent. -/
theorem Tidy.release (hw : w.Tidy) (hat : w.Serving ptr cell) {block : Option Block}
    (hlent : ∀ b ∈ block, b ∈ cell.blocks) (now : Option Timeval) :
    ∃ w' cell', w.release now (block.map (ConnPtr.mk ptr)) = .ok w' ∧
      PoolChange w w' ptr cell' ∧ ∀ cfg s, cell.BoundTo cfg s → cell'.BoundTo cfg s := by
  cases block with
  | none =>
      exact ⟨w, cell, rfl, ⟨hw, rfl, rfl, hat, fun _ _ => rfl, fun _ _ => rfl, fun _ _ hc _ => hc⟩,
        fun _ _ hbound => hbound⟩
  | some block =>
      obtain ⟨cell', hdone, _⟩ := hat.intact.done_lent (hlent block rfl) now
      refine ⟨_, cell', ?_, hw.setPool hat (hat.intact.done hdone),
        fun _ _ hbound => hbound.done hdone⟩
      change w.done ⟨ptr, block⟩ now = _
      rw [hat.done, hdone]
      rfl

/-- What `Get` returns from a pool in use is lent by it. -/
theorem Tidy.probe (hw : w.Tidy) (hat : w.Serving ptr cell) (h : Hiredis C D W)
    (env : GetEnv D W) :
    ∃ (block : Option Block) (w' : ManagerWorld C) (cell' : PoolCell C),
      w.getAt h env (some ptr) = .ok (block.map (ConnPtr.mk ptr), w') ∧ PoolChange w w' ptr cell' ∧
      (∀ b ∈ block, b ∈ cell'.blocks) ∧ ∀ cfg s, cell.BoundTo cfg s → cell'.BoundTo cfg s := by
  refine ⟨_, _, _, hat.poolGet h env, hw.setPool hat (hat.intact.get h env), ?_,
    fun _ _ hbound => hbound.get h ptr env⟩
  intro b hb
  rw [PoolCell.get_blocks]
  exact List.mem_append_left _ (Option.mem_toList.mpr hb)

/-- What an `Init` that gets past the host has set before it creates a pool. -/
def configured (w : ManagerWorld C) (addr : ServiceAddress) (password : String) (timeoutMs : Int)
    (option : Option ConnectionPoolOption) : ManagerWorld C :=
  ({ w with inited := true } : ManagerWorld C).configure addr password timeoutMs option

theorem slotPtr_configured (addr : ServiceAddress) (password : String) (timeoutMs : Int)
    (option : Option ConnectionPoolOption) :
    (w.configured addr password timeoutMs option).slotPtr = w.slotPtr := by
  funext s
  cases s <;> rfl

theorem Tidy.configured (hw : w.Tidy) (addr : ServiceAddress) (password : String)
    (timeoutMs : Int) (option : Option ConnectionPoolOption) :
    (w.configured addr password timeoutMs option).Tidy := by
  refine ⟨hw.slaves, hw.arrays, hw.filled, ?_⟩
  intro s
  rw [slotPtr_configured]
  exact hw.slots s

theorem addSlaves_slaveCnt (w : ManagerWorld C) (addrs : List ServiceAddress) :
    (w.addSlaves addrs).slaveCnt = (w.slaveAddr ++
      if 0 < addrs.length ∧ addrs.length < maxSlaveCnt then addrs else []).length := by
  unfold ManagerWorld.addSlaves
  split
  · rfl
  · simp

theorem addSlaves_count (w : ManagerWorld C) (addrs : List ServiceAddress) :
    (w.addSlaves addrs).slaveCnt = (w.addSlaves addrs).slaveAddr.length := by
  unfold ManagerWorld.addSlaves
  split <;> rfl

theorem addSlaves_inited (w : ManagerWorld C) (addrs : List ServiceAddress) :
    (w.addSlaves addrs).inited = w.inited := by
  unfold ManagerWorld.addSlaves
  split <;> rfl

theorem Tidy.no_slave (hw : w.Tidy) (hnone : w.slaveCnt = 0) (db : Fin maxDbNum) (index : Nat) :
    w.slotPtr (.slave db index) = none := by
  cases hslave : w.slave db with
  | none => simp [slotPtr, hslave]
  | some gen =>
      have hpos := hw.filled db gen hslave
      omega

/-- Before there is an array of slaves, slaves may be added. -/
theorem Tidy.addSlaves (hw : w.Tidy) (hnone : w.slaveCnt = 0) (addrs : List ServiceAddress) :
    (w.addSlaves addrs).Tidy ∧ (w.addSlaves addrs).slotPtr = w.slotPtr ∧
      (w.addSlaves addrs).pools = w.pools := by
  have hslave : ∀ db gen, (w.addSlaves addrs).slave db ≠ some gen := by
    intro db gen hgen
    have hold : w.slave db = some gen := by
      unfold ManagerWorld.addSlaves at hgen
      split at hgen <;> exact hgen
    have hpos := hw.filled db gen hold
    omega
  have hptrs : (w.addSlaves addrs).slotPtr = w.slotPtr := by
    unfold ManagerWorld.addSlaves
    funext s
    cases s <;> split <;> rfl
  have hpools : (w.addSlaves addrs).pools = w.pools := by
    unfold ManagerWorld.addSlaves
    split <;> rfl
  refine ⟨⟨addSlaves_count w addrs, fun db gen hgen => absurd hgen (hslave db gen),
    fun db gen hgen => absurd hgen (hslave db gen), ?_⟩, hptrs, hpools⟩
  intro s
  rw [hptrs, hpools]
  exact hw.slots s

/-- Some slots have come to serve pools bound to them; the others are as they
were. -/
structure SetUp (w w' : ManagerWorld C) (S : Slot → Prop) : Prop where
  tidy : w'.Tidy
  config : w'.toManagerConfig = w.toManagerConfig
  inited : w'.inited = w.inited
  here : ∀ s, S s → ∃ ptr cell, ptr.slot = s ∧ w'.Serving ptr cell ∧
    cell.BoundTo w.toManagerConfig s
  slotPtr : ∀ k, ¬S k → w'.slotPtr k = w.slotPtr k
  others : ∀ k, ¬S k → w'.poolAt k = w.poolAt k
  deleted : ∀ s, ∀ c ∈ w'.pools s, c.deleted = true → c ∈ w.pools s

theorem SetUp.start (hw : w.Tidy) : SetUp w w fun _ => False :=
  ⟨hw, rfl, rfl, fun _ hs => hs.elim, fun _ _ => rfl, fun _ _ => rfl, fun _ _ hc _ => hc⟩

theorem SetUp.change {w₁ w₂ : ManagerWorld C} {S : Slot → Prop} (hsetup : SetUp w w₁ S)
    (hslot : ptr.slot = s) (hchange : PoolChange w₁ w₂ ptr cell)
    (hbound : cell.BoundTo w.toManagerConfig s) : SetUp w w₂ fun k => S k ∨ k = s where
  tidy := hchange.tidy
  config := hchange.config.trans hsetup.config
  inited := hchange.inited.trans hsetup.inited
  here k hk := by
    subst hslot
    by_cases heq : k = ptr.slot
    · subst heq
      exact ⟨ptr, cell, rfl, hchange.here, hbound⟩
    · obtain ⟨other, old, rfl, hat, hold⟩ := hsetup.here k (hk.resolve_right heq)
      exact ⟨other, old, rfl, hchange.serving hat heq, hold⟩
  slotPtr k hk := by
    rw [not_or, ← hslot] at hk
    exact (hchange.slotPtr k hk.2).trans (hsetup.slotPtr k hk.1)
  others k hk := by
    rw [not_or, ← hslot] at hk
    exact (hchange.others k hk.2).trans (hsetup.others k hk.1)
  deleted k c hc hdeleted := hsetup.deleted k c (hchange.deleted k c hc hdeleted) hdeleted

/-- A change of a slot set up before. -/
theorem SetUp.again {w₁ w₂ : ManagerWorld C} {S : Slot → Prop} (hsetup : SetUp w w₁ S) (hS : S s)
    (hslot : ptr.slot = s) (hchange : PoolChange w₁ w₂ ptr cell)
    (hbound : cell.BoundTo w.toManagerConfig s) : SetUp w w₂ S := by
  have hnext := hsetup.change hslot hchange hbound
  have hset : (fun k => S k ∨ k = s) = S := by
    funext k
    apply propext
    constructor
    · rintro (hk | rfl)
      · exact hk
      · exact hS
    · exact .inl
  rwa [hset] at hnext

/-- An `Init` that gets past the host leaves `master_[0]` in use. -/
theorem Tidy.init_through (hw : w.Tidy) (hinited : w.inited = false) {host : String}
    {addr : ServiceAddress} (hhost : parseAddressVector host = [addr])
    (hfree : ∀ cell, w.poolAt (.master 0) = some cell → cell.deleted = true) (h : Hiredis C D W)
    (password : String) (timeoutMs : Int) (option : Option ConnectionPoolOption)
    (env : ProbeEnv D W) :
    ∃ r, w.init h host password timeoutMs option env = .ok r ∧
      SetUp (w.configured addr password timeoutMs option) r.world (· = .master 0) := by
  have hinit : w.init h host password timeoutMs option env = (do
      let w ← (w.configured addr password timeoutMs option).createPool (.master 0)
      let got ← w.getAt h env.get (w.master 0)
      let w ← got.2.release env.put got.1
      .ok ⟨got.1.isSome, none, w⟩) := by
    simp only [ManagerWorld.init, hinited, Bool.false_eq_true, if_false, hhost]
    rfl
  have hw₀ := hw.configured addr password timeoutMs option
  have hfree₀ : ∀ cell, (w.configured addr password timeoutMs option).poolAt (.master 0) =
      some cell → cell.deleted = true := hfree
  generalize w.configured addr password timeoutMs option = w₀ at hinit hw₀ hfree₀
  obtain ⟨w₁, hcreate, hchange₁⟩ := hw₀.create (s := .master 0) trivial hfree₀
  generalize hptr : (⟨.master 0, (w₀.pools (.master 0)).length⟩ : PoolPtr) = ptr at hchange₁
  have hslot : ptr.slot = .master 0 := by rw [← hptr]
  have hmaster : w₁.master 0 = some ptr := by
    have hfound := hchange₁.here.slotPtr
    rwa [hslot] at hfound
  obtain ⟨block, w₂, cell₂, hget, hchange₂, hlent, hkeep₂⟩ :=
    hchange₁.tidy.probe hchange₁.here h env.get
  obtain ⟨w₃, cell₃, hrelease, hchange₃, hkeep₃⟩ :=
    hchange₂.tidy.release hchange₂.here hlent env.put
  refine ⟨⟨(block.map (ConnPtr.mk ptr)).isSome, none, w₃⟩, ?_, ?_⟩
  · rw [hinit, hcreate, ok_do, hmaster, hget, ok_do]
    dsimp only
    rw [hrelease, ok_do]
  · have hbound := w₀.freshPool_boundTo (C := C) (.master 0)
    have hbound₂ := hkeep₂ _ _ hbound
    have hsetup₁ := (SetUp.start hw₀).change hslot hchange₁ hbound
    have hsetup₂ := hsetup₁.again (.inr rfl) hslot hchange₂ hbound₂
    have hsetup₃ := hsetup₂.again (.inr rfl) hslot hchange₃ (hkeep₃ _ _ hbound₂)
    simpa only [false_or] using hsetup₃

/-- `InitEx` creates `master_[0]` and, next to it, slave 0 of database 0. -/
theorem Tidy.create_pair (hw : w.Tidy) (hpos : 0 < w.slaveCnt)
    (hfree : ∀ cell, w.poolAt (.master 0) = some cell → cell.deleted = true)
    (hslave : w.poolAt (.slave 0 0) = none) :
    ∃ (w₁ w₂ : ManagerWorld C) (m p : PoolPtr), m.slot = .master 0 ∧ p.slot = .slave 0 0 ∧
      w.createPool (.master 0) = .ok w₁ ∧ PoolChange w w₁ m (w.freshPool (.master 0)) ∧
      w₁.createPool (.slave 0 0) = .ok w₂ ∧ PoolChange w₁ w₂ p (w₁.freshPool (.slave 0 0)) := by
  have hne : Slot.slave 0 0 ≠ .master 0 := by simp
  obtain ⟨w₁, hcreate₁, hchange₁⟩ := hw.create (s := .master 0) trivial hfree
  have hslot : w₁.HasSlot (.slave 0 0) := by
    rw [hchange₁.config]
    exact hpos
  have hnone : ∀ cell, w₁.poolAt (.slave 0 0) = some cell → cell.deleted = true := by
    intro cell hcell
    rw [hchange₁.others _ hne, hslave] at hcell
    cases hcell
  obtain ⟨w₂, hcreate₂, hchange₂⟩ := hchange₁.tidy.create hslot hnone
  exact ⟨w₁, w₂, _, _, rfl, rfl, hcreate₁, hchange₁, hcreate₂, hchange₂⟩

/-- An `InitEx` that gets past the hosts leaves `master_[0]` and `slave_[0][0]`
in use. -/
theorem Tidy.initEx_through (hw : w.Tidy) (hinited : w.inited = false) (hnone : w.slaveCnt = 0)
    {masterHost slaveHosts : String} {addr : ServiceAddress}
    (hhost : parseAddressVector masterHost = [addr])
    (hpos : 0 < (w.addSlaves (parseAddressVector slaveHosts)).slaveCnt)
    (hfree : ∀ cell, w.poolAt (.master 0) = some cell → cell.deleted = true) (h : Hiredis C D W)
    (password : String) (timeoutMs : Int) (option : Option ConnectionPoolOption)
    (masterEnv slaveEnv : ProbeEnv D W) :
    ∃ r, w.initEx h masterHost slaveHosts password timeoutMs option masterEnv slaveEnv = .ok r ∧
      SetUp ((w.configured addr password timeoutMs option).addSlaves
        (parseAddressVector slaveHosts)) r.world (fun s => s = .master 0 ∨ s = .slave 0 0) := by
  have hinit : w.initEx h masterHost slaveHosts password timeoutMs option masterEnv slaveEnv = (do
      let w ← ((w.configured addr password timeoutMs option).addSlaves
        (parseAddressVector slaveHosts)).createPool (.master 0)
      let w ← w.createPool (.slave 0 0)
      let first ← w.getAt h masterEnv.get (w.master 0)
      let ptr ← first.2.readSlave 0 0
      let second ← first.2.getAt h slaveEnv.get ptr
      let w ← second.2.release slaveEnv.put second.1
      let w ← w.release masterEnv.put first.1
      .ok ⟨first.1.isSome && second.1.isSome, none, w⟩) := by
    simp only [ManagerWorld.initEx, hinited, Bool.false_eq_true, if_false, hhost]
    rfl
  have hconfigured := hw.configured addr password timeoutMs option
  obtain ⟨hw₀, hptrs₀, hpools₀⟩ := hconfigured.addSlaves hnone (parseAddressVector slaveHosts)
  have hpos₀ : 0 < ((w.configured addr password timeoutMs option).addSlaves
      (parseAddressVector slaveHosts)).slaveCnt := by
    rw [addSlaves_slaveCnt] at hpos ⊢
    exact hpos
  have hfree₀ : ∀ cell, ((w.configured addr password timeoutMs option).addSlaves
      (parseAddressVector slaveHosts)).poolAt (.master 0) = some cell → cell.deleted = true := by
    intro cell hcell
    rw [hconfigured.poolAt_congr (congrFun hptrs₀ _) (congrFun hpools₀ _)] at hcell
    exact hfree cell hcell
  have hslave₀ : ((w.configured addr password timeoutMs option).addSlaves
      (parseAddressVector slaveHosts)).poolAt (.slave 0 0) = none := by
    apply poolAt_none
    rw [hptrs₀]
    exact hconfigured.no_slave hnone 0 0
  generalize (w.configured addr password timeoutMs option).addSlaves
    (parseAddressVector slaveHosts) = w₀ at hinit hw₀ hpos₀ hfree₀ hslave₀
  obtain ⟨w₁, w₂, m, p, hmslot, hpslot, hcreate₁, hchange₁, hcreate₂, hchange₂⟩ :=
    hw₀.create_pair hpos₀ hfree₀ hslave₀
  have hmp : m.slot ≠ p.slot := by
    rw [hmslot, hpslot]
    simp
  -- a connection from each pool
  have hm₂ := hchange₂.serving hchange₁.here hmp
  have hmaster₂ : w₂.master 0 = some m := by
    have hfound := hm₂.slotPtr
    rwa [hmslot] at hfound
  obtain ⟨masterBlock, w₃, cell₃, hget₃, hchange₃, hlent₃, hkeep₃⟩ :=
    hchange₂.tidy.probe hm₂ h masterEnv.get
  have hp₃ := hchange₃.serving hchange₂.here hmp.symm
  have hcount₃ : 0 < w₃.slaveCnt := by
    rw [hchange₃.config, hchange₂.config, hchange₁.config]
    exact hpos₀
  have hread₃ : w₃.readSlave 0 0 = .ok (w₃.slotPtr (.slave 0 0)) :=
    hchange₃.tidy.arrays.readSlave hcount₃
  rw [← hpslot, hp₃.slotPtr] at hread₃
  obtain ⟨slaveBlock, w₄, cell₄, hget₄, hchange₄, hlent₄, hkeep₄⟩ :=
    hchange₃.tidy.probe hp₃ h slaveEnv.get
  -- and each goes back
  obtain ⟨w₅, cell₅, hrelease₅, hchange₅, hkeep₅⟩ :=
    hchange₄.tidy.release hchange₄.here hlent₄ slaveEnv.put
  have hm₅ := hchange₅.serving (hchange₄.serving hchange₃.here hmp) hmp
  obtain ⟨w₆, cell₆, hrelease₆, hchange₆, hkeep₆⟩ :=
    hchange₅.tidy.release hm₅ hlent₃ masterEnv.put
  refine ⟨⟨(masterBlock.map (ConnPtr.mk m)).isSome && (slaveBlock.map (ConnPtr.mk p)).isSome,
    none, w₆⟩, ?_, ?_⟩
  · rw [hinit, hcreate₁, ok_do, hcreate₂, ok_do, hmaster₂, hget₃, ok_do]
    dsimp only
    rw [hread₃, ok_do, hget₄, ok_do]
    dsimp only
    rw [hrelease₅, ok_do, hrelease₆, ok_do]
  · have hboundM := w₀.freshPool_boundTo (C := C) (.master 0)
    have hboundP : (w₁.freshPool (.slave 0 0) : PoolCell C).BoundTo w₀.toManagerConfig
        (.slave 0 0) := by
      rw [hchange₁.config]
      exact w₀.freshPool_boundTo (.slave 0 0)
    have hboundM₃ := hkeep₃ _ _ hboundM
    have hboundP₄ := hkeep₄ _ _ hboundP
    have hsetup₁ := (SetUp.start hw₀).change hmslot hchange₁ hboundM
    have hsetup₂ := hsetup₁.change hpslot hchange₂ hboundP
    have hsetup₃ := hsetup₂.again (.inl (.inr rfl)) hmslot hchange₃ hboundM₃
    have hsetup₄ := hsetup₃.again (.inr rfl) hpslot hchange₄ hboundP₄
    have hsetup₅ := hsetup₄.again (.inr rfl) hpslot hchange₅ (hkeep₅ _ _ hboundP₄)
    have hsetup₆ := hsetup₅.again (.inl (.inr rfl)) hmslot hchange₆ (hkeep₆ _ _ hboundM₃)
    simpa only [false_or] using hsetup₆

/-- Without a slave `InitEx` still asks for the address of slave 0. -/
theorem initEx_no_slave (hinited : w.inited = false) {masterHost slaveHosts : String}
    {addr : ServiceAddress} (hhost : parseAddressVector masterHost = [addr])
    (hnone : (w.addSlaves (parseAddressVector slaveHosts)).slaveAddr = []) (h : Hiredis C D W)
    (password : String) (timeoutMs : Int) (option : Option ConnectionPoolOption)
    (masterEnv slaveEnv : ProbeEnv D W) :
    w.initEx h masterHost slaveHosts password timeoutMs option masterEnv slaveEnv =
      .error .outOfBounds := by
  have hslaves : ((w.configured addr password timeoutMs option).addSlaves
      (parseAddressVector slaveHosts)).slaveAddr = [] := by
    unfold ManagerWorld.addSlaves at hnone ⊢
    split
    · rename_i hlength
      rwa [if_pos hlength] at hnone
    · rename_i hlength
      rwa [if_neg hlength] at hnone
  simp only [initEx, hinited, Bool.false_eq_true, if_false, hhost]
  change (((w.configured addr password timeoutMs option).addSlaves
    (parseAddressVector slaveHosts)).initConnectionPool .master 0 0 >>= _) = _
  generalize (w.configured addr password timeoutMs option).addSlaves _ = w₀ at hslaves
  simp only [initConnectionPool, newPool, ok_do, hslaves]
  rfl

theorem init_bad_host (hinited : w.inited = false) {host : String}
    (hhost : (parseAddressVector host).length ≠ 1) (h : Hiredis C D W) (password : String)
    (timeoutMs : Int) (option : Option ConnectionPoolOption) (env : ProbeEnv D W) :
    w.init h host password timeoutMs option env =
      .ok ⟨false, some errBadHost, { w with inited := true }⟩ := by
  simp only [init, hinited, Bool.false_eq_true, if_false]
  generalize parseAddressVector host = addrs at hhost
  rcases addrs with _ | ⟨addr, _ | ⟨other, rest⟩⟩
  · rfl
  · exact absurd rfl hhost
  · rfl

theorem initEx_bad_host (hinited : w.inited = false) {masterHost : String}
    (hhost : (parseAddressVector masterHost).length ≠ 1) (h : Hiredis C D W)
    (slaveHosts password : String) (timeoutMs : Int) (option : Option ConnectionPoolOption)
    (masterEnv slaveEnv : ProbeEnv D W) :
    w.initEx h masterHost slaveHosts password timeoutMs option masterEnv slaveEnv =
      .ok ⟨false, some errBadHost, { w with inited := true }⟩ := by
  simp only [initEx, hinited, Bool.false_eq_true, if_false]
  generalize parseAddressVector masterHost = addrs at hhost
  rcases addrs with _ | ⟨addr, _ | ⟨other, rest⟩⟩
  · rfl
  · exact absurd rfl hhost
  · rfl

/-- The flag alone is set by a call that gives up on the host. -/
theorem Tidy.withInited (hw : w.Tidy) : ({ w with inited := true } : ManagerWorld C).Tidy := by
  refine ⟨hw.slaves, hw.arrays, hw.filled, ?_⟩
  intro s
  have hslot := hw.slots s
  cases s <;> exact hslot

theorem poolAt_withInited (s : Slot) :
    ({ w with inited := true } : ManagerWorld C).poolAt s = w.poolAt s := by
  cases s <;> rfl

theorem Tidy.new : ({} : ManagerWorld C).Tidy := by
  refine ⟨rfl, ?_, ?_, ?_⟩
  · intro db gen hgen
    cases hgen
  · intro db gen hgen
    cases hgen
  · intro s
    cases s with
    | master db => exact .empty
    | slave db index => exact .empty

end ManagerWorld

end CloRedis
