import CloRedis.Manager.Teardown

/-!
What is left of a manager after `Flush`. The configuration stays, and so do the
pointers; the next `Init` replaces the address of the master and `master_[0]`,
the options only when it is given some, and it adds to the slaves.
-/

namespace CloRedis

open Library

variable {C D W : Type}

namespace PublicCall

def BadHost : PublicCall D W → Prop
  | .init host _ _ _ _ => (parseAddressVector host).length ≠ 1
  | .initEx masterHost _ _ _ _ _ _ => (parseAddressVector masterHost).length ≠ 1
  | _ => False

/-- The hosts are such that a new manager gets past them. -/
def Through : PublicCall D W → Prop
  | .init host _ _ _ _ => (parseAddressVector host).length = 1
  | .initEx masterHost slaveHosts _ _ _ _ _ =>
      (parseAddressVector masterHost).length = 1 ∧
        0 < (parseAddressVector slaveHosts).length ∧
        (parseAddressVector slaveHosts).length < maxSlaveCnt
  | _ => False

def option : PublicCall D W → Option ConnectionPoolOption
  | .init _ _ _ option _ => option
  | .initEx _ _ _ _ option _ _ => option
  | _ => none

/-- The slots that are filled by a call that gets past the hosts. -/
def Fills : PublicCall D W → Slot → Prop
  | .init .., s => s = .master defaultDb
  | .initEx .., s => s = .master defaultDb ∨ s = .slave defaultDb 0
  | _, _ => False

end PublicCall

namespace ManagerWorld

variable {w w' u v : ManagerWorld C} {s : Slot} {h : Hiredis C D W} {next : PublicCall D W}

/-- What is set by a call that gets past the hosts, before it creates a pool. -/
def prepared (w : ManagerWorld C) : PublicCall D W → ManagerWorld C
  | .init host password timeoutMs option _ =>
      w.configured ((parseAddressVector host).headD {}) password timeoutMs option
  | .initEx masterHost slaveHosts password timeoutMs option _ _ =>
      (w.configured ((parseAddressVector masterHost).headD {}) password timeoutMs option).addSlaves
        (parseAddressVector slaveHosts)
  | _ => w

/-! ### The configuration -/

/-- The master, the slaves and the options are the same. -/
structure SameConfig (cfg cfg' : ManagerConfig) : Prop where
  masterAddr : cfg.masterAddr = cfg'.masterAddr
  slaveAddr : cfg.slaveAddr = cfg'.slaveAddr
  slaveCnt : cfg.slaveCnt = cfg'.slaveCnt
  option : cfg.option = cfg'.option

theorem getD_eq_iff {α : Type} {o : Option α} {a b : α} :
    o.getD a = o.getD b ↔ o.isSome = true ∨ a = b := by
  cases o <;> simp

theorem addSlaves_slaveAddr (w : ManagerWorld C) {addrs : List ServiceAddress}
    (haddrs : 0 < addrs.length ∧ addrs.length < maxSlaveCnt) :
    (w.addSlaves addrs).slaveAddr = w.slaveAddr ++ addrs := by
  rw [ManagerWorld.addSlaves, if_pos haddrs]

/-- A call that goes through sets the configuration of a new manager unless
slaves are left over, or options that are not replaced. -/
theorem prepared_same_iff (hthrough : next.Through) (hcount : w.slaveCnt = w.slaveAddr.length) :
    SameConfig (w.prepared next).toManagerConfig
        (({} : ManagerWorld C).prepared next).toManagerConfig ↔
      w.slaveAddr = [] ∧ (next.option.isSome = true ∨ w.option = {}) := by
  cases next with
  | init host password timeoutMs option env =>
      constructor
      · intro hsame
        exact ⟨hsame.slaveAddr, getD_eq_iff.mp hsame.option⟩
      · rintro ⟨hslaves, hoption⟩
        refine ⟨rfl, hslaves, ?_, getD_eq_iff.mpr hoption⟩
        change w.slaveCnt = 0
        rw [hcount, hslaves]
        rfl
  | initEx masterHost slaveHosts password timeoutMs option masterEnv slaveEnv =>
      obtain ⟨_, hlength⟩ := hthrough
      have hoption : ∀ x : ManagerWorld C, (x.addSlaves (parseAddressVector slaveHosts)).option =
          x.option := by
        intro x
        rw [ManagerWorld.addSlaves, if_pos hlength]
      have hmaster : ∀ x : ManagerWorld C,
          (x.addSlaves (parseAddressVector slaveHosts)).masterAddr = x.masterAddr := by
        intro x
        rw [ManagerWorld.addSlaves, if_pos hlength]
      constructor
      · rintro ⟨_, hslaves, _, hopt⟩
        simp only [prepared, addSlaves_slaveAddr _ hlength] at hslaves
        simp only [prepared, hoption] at hopt
        exact ⟨List.append_left_eq_self.mp (hslaves.trans (List.nil_append _)),
          getD_eq_iff.mp hopt⟩
      · rintro ⟨hslaves, hopt⟩
        have haddrs : (w.prepared (.initEx masterHost slaveHosts password timeoutMs option
            masterEnv slaveEnv)).slaveAddr =
            (({} : ManagerWorld C).prepared (.initEx masterHost slaveHosts password timeoutMs
              option masterEnv slaveEnv)).slaveAddr := by
          simp only [prepared, addSlaves_slaveAddr _ hlength]
          change w.slaveAddr ++ _ = [] ++ _
          rw [hslaves]
        refine ⟨?_, haddrs, ?_, ?_⟩
        · simp only [prepared, hmaster]
          rfl
        · simp only [prepared, addSlaves_count] at haddrs ⊢
          rw [haddrs]
        · simp only [prepared, hoption]
          exact getD_eq_iff.mpr hopt
  | _ => exact hthrough.elim

theorem initConnectionPool_config {role : RedisRole} {db : Fin maxDbNum} {slaveSlot : Nat}
    (hcreate : w.initConnectionPool role db slaveSlot = .ok w') :
    w'.toManagerConfig = w.toManagerConfig := by
  cases role with
  | master =>
      cases hcreate
      rfl
  | slave =>
      simp only [initConnectionPool] at hcreate
      split at hcreate
      · cases hcreate
      · have hensure : (w.ensureArray db).toManagerConfig = w.toManagerConfig := by
          unfold ManagerWorld.ensureArray
          split <;> rfl
        unfold ManagerWorld.writeSlave at hcreate
        split at hcreate
        · cases hcreate
        · obtain ⟨array, _, hwrite⟩ := do_ok.mp hcreate
          split at hwrite
          · cases hwrite
            exact hensure
          · cases hwrite

theorem getAt_config {env : GetEnv D W} {found : Option PoolPtr} {conn : Option ConnPtr}
    (hget : w.getAt h env found = .ok (conn, w')) : w'.toManagerConfig = w.toManagerConfig := by
  cases found with
  | none => cases hget
  | some ptr =>
      obtain ⟨cell, _, hget⟩ := do_ok.mp hget
      cases hget
      rfl

theorem done_config {conn : ConnPtr} {now : Option Timeval} (hdone : w.done conn now = .ok w') :
    w'.toManagerConfig = w.toManagerConfig := by
  unfold ManagerWorld.done at hdone
  split at hdone
  · cases hdone
  · split at hdone
    · cases hdone
    · dsimp only at hdone
      split at hdone
      · cases hdone
        rfl
      · obtain ⟨cell, _, hput⟩ := do_ok.mp hdone
        cases hput
        rfl

theorem release_config {conn : Option ConnPtr} {now : Option Timeval}
    (hrelease : w.release now conn = .ok w') : w'.toManagerConfig = w.toManagerConfig := by
  cases conn with
  | none =>
      cases hrelease
      rfl
  | some conn => exact done_config hrelease

/-- A call that gets past the hosts sets the configuration and nothing after it
does. -/
theorem perform_config (hinited : w.inited = false) (hthrough : next.Through)
    (hperform : w.perform h next = .ok w') :
    w'.toManagerConfig = (w.prepared next).toManagerConfig := by
  cases next with
  | init host password timeoutMs option env =>
      obtain ⟨addr, hhost⟩ := List.length_eq_one_iff.mp hthrough
      rw [perform] at hperform
      obtain ⟨r, hinit, rfl⟩ := map_ok.mp hperform
      simp only [ManagerWorld.init, hinited, Bool.false_eq_true, if_false, hhost] at hinit
      obtain ⟨w₁, hcreate, hinit⟩ := do_ok.mp hinit
      obtain ⟨⟨conn, w₂⟩, hget, hinit⟩ := do_ok.mp hinit
      obtain ⟨w₃, hrelease, hr⟩ := do_ok.mp hinit
      cases hr
      rw [release_config hrelease, getAt_config hget, initConnectionPool_config hcreate]
      simp only [prepared, hhost]
      rfl
  | initEx masterHost slaveHosts password timeoutMs option masterEnv slaveEnv =>
      obtain ⟨addr, hhost⟩ := List.length_eq_one_iff.mp hthrough.1
      rw [perform] at hperform
      obtain ⟨r, hinit, rfl⟩ := map_ok.mp hperform
      simp only [ManagerWorld.initEx, hinited, Bool.false_eq_true, if_false, hhost] at hinit
      obtain ⟨w₁, hcreate₁, hinit⟩ := do_ok.mp hinit
      obtain ⟨w₂, hcreate₂, hinit⟩ := do_ok.mp hinit
      obtain ⟨⟨masterConn, w₃⟩, hget₃, hinit⟩ := do_ok.mp hinit
      obtain ⟨ptr, _, hinit⟩ := do_ok.mp hinit
      obtain ⟨⟨slaveConn, w₄⟩, hget₄, hinit⟩ := do_ok.mp hinit
      obtain ⟨w₅, hrelease₅, hinit⟩ := do_ok.mp hinit
      obtain ⟨w₆, hrelease₆, hr⟩ := do_ok.mp hinit
      cases hr
      rw [release_config hrelease₆, release_config hrelease₅, getAt_config hget₄,
        getAt_config hget₃, initConnectionPool_config hcreate₂,
        initConnectionPool_config hcreate₁]
      simp only [prepared, hhost]
      rfl
  | _ => exact hthrough.elim

/-! ### The next set-up -/

theorem perform_bad_host (hinited : w.inited = false) (hbad : next.BadHost) (h : Hiredis C D W) :
    w.perform h next = .ok { w with inited := true } := by
  cases next with
  | init host password timeoutMs option env =>
      rw [perform, init_bad_host hinited hbad]
      rfl
  | initEx masterHost slaveHosts password timeoutMs option masterEnv slaveEnv =>
      rw [perform, initEx_bad_host hinited hbad]
      rfl
  | _ => exact hbad.elim

theorem Tidy.perform_through (hw : w.Tidy) (hinited : w.inited = false) (hnone : w.slaveCnt = 0)
    (hvacant : w.Vacant (.master 0)) (hthrough : next.Through) (h : Hiredis C D W) :
    ∃ w', w.perform h next = .ok w' ∧ SetUp (w.prepared next) w' next.Fills := by
  have hfree := hw.vacant hvacant
  cases next with
  | init host password timeoutMs option env =>
      obtain ⟨addr, hhost⟩ := List.length_eq_one_iff.mp hthrough
      obtain ⟨r, hinit, hsetup⟩ :=
        hw.init_through hinited hhost hfree h password timeoutMs option env
      refine ⟨r.world, ?_, ?_⟩
      · rw [perform, hinit]
        rfl
      · rw [prepared, hhost]
        exact hsetup
  | initEx masterHost slaveHosts password timeoutMs option masterEnv slaveEnv =>
      obtain ⟨addr, hhost⟩ := List.length_eq_one_iff.mp hthrough.1
      have hpos : 0 < (w.addSlaves (parseAddressVector slaveHosts)).slaveCnt := by
        rw [addSlaves_slaveCnt, if_pos hthrough.2, List.length_append]
        exact Nat.lt_of_lt_of_le hthrough.2.1 (Nat.le_add_left _ _)
      obtain ⟨r, hinit, hsetup⟩ := hw.initEx_through hinited hnone hhost hpos hfree h password
        timeoutMs option masterEnv slaveEnv
      refine ⟨r.world, ?_, ?_⟩
      · rw [perform, hinit]
        rfl
      · rw [prepared, hhost]
        exact hsetup
  | _ => exact hthrough.elim

/-- A new manager gets past the hosts, gives up on them, or fails. -/
theorem perform_new {v : ManagerWorld C} (hnext : next.SetsUp)
    (hperform : perform h ({} : ManagerWorld C) next = .ok v) : next.BadHost ∨ next.Through := by
  cases next with
  | init host password timeoutMs option env => exact (em _).symm
  | initEx masterHost slaveHosts password timeoutMs option masterEnv slaveEnv =>
      by_cases hhost : (parseAddressVector masterHost).length = 1
      · right
        refine ⟨hhost, ?_⟩
        by_contra hlength
        obtain ⟨addr, haddr⟩ := List.length_eq_one_iff.mp hhost
        have hnone : (({} : ManagerWorld C).addSlaves (parseAddressVector slaveHosts)).slaveAddr =
            [] := by
          rw [ManagerWorld.addSlaves, if_neg hlength]
        rw [perform, initEx_no_slave rfl haddr hnone] at hperform
        cases hperform
      · exact .inl hhost
  | _ => exact hnext.elim

theorem Tidy.prepared (hw : w.Tidy) (hnone : w.slaveCnt = 0) (next : PublicCall D W) :
    (w.prepared next).Tidy ∧ (w.prepared next).slotPtr = w.slotPtr ∧
      (w.prepared next).pools = w.pools := by
  cases next with
  | init host password timeoutMs option env =>
      exact ⟨hw.configured _ password timeoutMs option,
        slotPtr_configured _ password timeoutMs option, rfl⟩
  | initEx masterHost slaveHosts password timeoutMs option masterEnv slaveEnv =>
      have hconfigured := hw.configured ((parseAddressVector masterHost).headD {}) password
        timeoutMs option
      obtain ⟨htidy, hptrs, hpools⟩ := hconfigured.addSlaves hnone (parseAddressVector slaveHosts)
      exact ⟨htidy, hptrs.trans (slotPtr_configured _ password timeoutMs option), hpools⟩
  | _ => exact ⟨hw, rfl, rfl⟩

/-! ### What `Get` finds -/

/-- The pool that `Get` finds or creates in a slot is not deleted, and is bound
to the slot. -/
structure Fit (w : ManagerWorld C) (s : Slot) : Prop where
  clear : ¬w.Stale s
  bound : (w.poolFor s).BoundTo w.toManagerConfig s

theorem Fit.of_none (hnone : w.slotPtr s = none) : w.Fit s where
  clear := by
    rintro ⟨cell, hcell, _⟩
    rw [poolAt_none hnone] at hcell
    cases hcell
  bound := by
    rw [poolFor, poolAt_none hnone]
    exact w.freshPool_boundTo s

theorem Tidy.getSlot_bound (hw : w.Tidy) (hs : w.HasSlot s) (hfit : w.Fit s) (h : Hiredis C D W)
    (env : GetEnv D W) :
    ∃ found w' cell, w.getSlot h s env = .ok (found, w') ∧ w'.poolAt s = some cell ∧
      cell.BoundTo w.toManagerConfig s := by
  obtain ⟨w', ptr, rfl, hget, hchange⟩ := hw.getSlot hs hfit.clear h env
  exact ⟨_, w', _, hget, hchange.here.poolAt, hfit.bound.get h ptr env⟩

/-- A call that goes through leaves every slot fit that was not filled. -/
theorem SetUp.fit {S : Slot → Prop} (hsetup : SetUp w w' S) (hnone : ∀ s, ¬S s → w.slotPtr s = none)
    (s : Slot) : w'.Fit s := by
  by_cases hs : S s
  · obtain ⟨ptr, cell, rfl, hat, hbound⟩ := hsetup.here s hs
    refine ⟨hat.not_stale, ?_⟩
    rw [poolFor, hat.poolAt, hsetup.config]
    exact hbound
  · apply Fit.of_none
    rw [hsetup.slotPtr s hs]
    exact hnone s hs

structure SameServer (cell cell' : PoolCell C) : Prop where
  host : cell.binding.host = cell'.binding.host
  port : cell.binding.port = cell'.binding.port
  db : cell.binding.db = cell'.binding.db
  option : cell.option = cell'.option

/-- Whatever `Get` does on the second manager, the first asks a pool of the
same server, database and options in the same slot. -/
def ServedAlike (h : Hiredis C D W) (w v : ManagerWorld C) (db : Int) (role : RedisRole)
    (index : Int) (rand : Nat) (env : GetEnv D W) : Prop :=
  ∀ found v', v.get h db role index rand env = .ok (found, v') →
    ∃ found' w', w.get h db role index rand env = .ok (found', w') ∧
      ∀ i : Fin maxDbNum, (i.val : Int) = db → ∃ cell cell',
        w'.poolAt (v.route i role index rand) = some cell ∧
        v'.poolAt (v.route i role index rand) = some cell' ∧ SameServer cell cell'

theorem SameConfig.server {cfg cfg' : ManagerConfig} (hsame : SameConfig cfg cfg') :
    cfg.server = cfg'.server := by
  funext s
  cases s with
  | master db => rw [ManagerConfig.server, ManagerConfig.server, hsame.masterAddr]
  | slave db index => rw [ManagerConfig.server, ManagerConfig.server, hsame.slaveAddr]

theorem Tidy.server (hw : w.Tidy) (hs : w.HasSlot s) : ∃ addr, w.server s = some addr := by
  cases s with
  | master db => exact ⟨_, rfl⟩
  | slave db index =>
      have hlength : index < w.slaveAddr.length := by
        rw [← hw.slaves]
        exact hs
      exact ⟨_, List.getElem?_eq_getElem hlength⟩

theorem SameConfig.route {cfg cfg' : ManagerConfig} (hsame : SameConfig cfg cfg')
    (db : Fin maxDbNum) (role : RedisRole) (index : Int) (rand : Nat) :
    cfg.route db role index rand = cfg'.route db role index rand := by
  rw [ManagerConfig.route, ManagerConfig.route, hsame.slaveCnt]

/-- Two managers with the same configuration and fit slots serve alike. -/
theorem Tidy.served_alike (hw : w.Tidy) (hv : v.Tidy)
    (hsame : SameConfig w.toManagerConfig v.toManagerConfig) (hfit : ∀ s, w.Fit s)
    (hfit' : ∀ s, v.Fit s) (h : Hiredis C D W) (db : Int) (role : RedisRole) (index : Int)
    (rand : Nat) (env : GetEnv D W) : ServedAlike h w v db role index rand env := by
  intro found v' hget
  rcases lt_or_ge db 0 with hneg | hnonneg
  · rw [get_negative hneg] at hget
    cases hget
  · rcases le_or_gt (maxDbNum : Int) db with hbeyond | hlt
    · refine ⟨none, w, get_beyond hbeyond role index rand env, ?_⟩
      intro i hi
      have hlt := i.isLt
      omega
    · have hval : ((⟨db.toNat, by omega⟩ : Fin maxDbNum).val : Int) = db :=
        Int.toNat_of_nonneg hnonneg
      generalize (⟨db.toNat, by omega⟩ : Fin maxDbNum) = i at hval
      subst hval
      have hroute := hsame.route i role index rand
      have hs := route_hasSlot v.toManagerConfig i role index rand
      have hs' := route_hasSlot w.toManagerConfig i role index rand
      rw [hroute] at hs'
      rw [get_eq] at hget
      obtain ⟨_, v₁, cell', hget₁, hat', hbound'⟩ := hv.getSlot_bound hs (hfit' _) h env
      cases hget.symm.trans hget₁
      obtain ⟨found₁, w₁, cell, hget₂, hat, hbound⟩ := hw.getSlot_bound hs' (hfit _) h env
      refine ⟨found₁, w₁, ?_, ?_⟩
      · rw [get_eq, hroute]
        exact hget₂
      · intro j hj
        have hji : j = i := Fin.ext (by exact_mod_cast hj)
        subst hji
        obtain ⟨addr, haddr⟩ := hv.server hs
        have haddr' := haddr
        rw [← hsame.server] at haddr'
        refine ⟨cell, cell', hat, hat', ?_, ?_, ?_, ?_⟩
        · rw [hbound.host addr haddr', hbound'.host addr haddr]
        · rw [hbound.port addr haddr', hbound'.port addr haddr]
        · rw [hbound.db, hbound'.db]
        · rw [hbound.option, hbound'.option, hsame.option]

/-- `Get` from a stale slot of the master. -/
theorem Stale.get {db : Fin maxDbNum} (hstale : w.Stale (.master db)) (h : Hiredis C D W)
    (index : Int) (rand : Nat) (env : GetEnv D W) :
    w.get h db.val .master index rand env = .error .useAfterDelete := by
  obtain ⟨cell, hcell, hdeleted⟩ := hstale
  obtain ⟨ptr, hptr, hat⟩ := Option.bind_eq_some_iff.mp hcell
  have hmaster : w.master db = some ptr := hptr
  have hlive : w.livePool ptr = .error .useAfterDelete := by
    simp [livePool, hat, hdeleted]
  rw [get_eq, ManagerConfig.route, if_pos (.inl rfl)]
  simp only [getSlot, readSlot, hmaster, ok_do, poolGet, hlive]
  rfl

/-! ### Before and after `Flush` -/

/-- No pool was ever deleted. -/
structure Unflushed (w : ManagerWorld C) : Prop where
  tidy : w.Tidy
  kept : ∀ s, ∀ cell ∈ w.pools s, cell.deleted = false

theorem Unflushed.clear (hw : w.Unflushed) (s : Slot) : ¬w.Stale s := by
  rintro ⟨cell, hcell, hdeleted⟩
  obtain ⟨ptr, hptr, hat⟩ := Option.bind_eq_some_iff.mp hcell
  rw [hw.kept ptr.slot cell (List.mem_of_getElem? hat)] at hdeleted
  cases hdeleted

theorem Unflushed.of_deleted (hw : w.Unflushed) (htidy : w'.Tidy)
    (hdeleted : ∀ s, ∀ c ∈ w'.pools s, c.deleted = true → c ∈ w.pools s) : w'.Unflushed := by
  refine ⟨htidy, ?_⟩
  intro s cell hcell
  cases hflag : cell.deleted with
  | false => rfl
  | true =>
      have hold := hw.kept s cell (hdeleted s cell hcell hflag)
      rw [hflag] at hold
      cases hold

/-- A set-up and any uses of a new manager. -/
theorem unflushed_run {first : PublicCall D W} {uses : List (PublicCall D W)}
    (hfirst : first.SetsUp) (huses : ∀ call ∈ uses, call.Uses)
    (hrun : run (perform h) ({} : ManagerWorld C) (first :: uses) = .ok u) : u.Unflushed := by
  obtain ⟨u₁, hcall, hrest⟩ := run_cons_ok.mp hrun
  have hnew : ({} : ManagerWorld C).Unflushed := ⟨.new, fun s cell hcell => by cases hcell⟩
  have hstart : u₁.Unflushed := by
    rcases perform_new hfirst hcall with hbad | hthrough
    · rw [perform_bad_host rfl hbad] at hcall
      cases hcall
      exact ⟨Tidy.new.withInited, hnew.kept⟩
    · obtain ⟨w', hperform, hsetup⟩ := Tidy.new.perform_through rfl rfl (.inl rfl) hthrough h
      cases hcall.symm.trans hperform
      obtain ⟨htidy, _, hpools⟩ := Tidy.new.prepared rfl first
      have hprepared : (({} : ManagerWorld C).prepared first).Unflushed := by
        refine ⟨htidy, ?_⟩
        rw [hpools]
        exact hnew.kept
      exact hprepared.of_deleted hsetup.tidy hsetup.deleted
  clear hrun hcall
  induction uses generalizing u₁ with
  | nil =>
      cases hrest
      exact hstart
  | cons call uses ih =>
      obtain ⟨u₂, hcall, hrest⟩ := run_cons_ok.mp hrest
      have hsettled : u₁.Settled := by
        intro s cell hcell hdeleted
        rw [hstart.kept s cell hcell] at hdeleted
        cases hdeleted
      have honward := (hstart.tidy.uses hsettled (huses call (List.mem_cons_self ..))
        fun s _ => hstart.clear s).ok hcall
      exact ih (fun other hother => huses other (List.mem_cons_of_mem _ hother)) u₂ hrest
        (hstart.of_deleted honward.tidy honward.deleted)

/-- Whenever a call goes through on a new manager, it goes through here, leaves
the same configuration, and every `Get` after it is served alike. -/
def Resets (h : Hiredis C D W) (w : ManagerWorld C) (next : PublicCall D W) : Prop :=
  ∀ v, perform h {} next = .ok v → ∃ w', w.perform h next = .ok w' ∧
    SameConfig w'.toManagerConfig v.toManagerConfig ∧
    ∀ db role index rand env, ServedAlike h w' v db role index rand env

/-- What the next call does not replace is as in a new manager. A call that
gives up on the host replaces nothing; one that goes through replaces the
address of the master, the options if it is given some, and `master_[0]`. -/
structure CleanFor (u : ManagerWorld C) (next : PublicCall D W) : Prop where
  bad : next.BadHost → u.masterAddr = {} ∧ u.slaveAddr = [] ∧ u.option = {} ∧
    ∀ s, u.slotPtr s = none
  through : next.Through → u.slaveAddr = [] ∧ (next.option.isSome = true ∨ u.option = {}) ∧
    ∀ s, s ≠ .master 0 → u.slotPtr s = none

theorem fills_first (hthrough : next.Through) : next.Fills (.master 0) := by
  cases next with
  | init => rfl
  | initEx => exact .inl rfl
  | _ => exact hthrough.elim

theorem not_fills {db : Fin maxDbNum} (hdb : Slot.master db ≠ .master 0) :
    ¬next.Fills (.master db) := by
  cases next with
  | init => exact hdb
  | initEx =>
      rintro (heq | heq)
      · exact hdb heq
      · cases heq
  | _ => exact id

theorem env_of_setsUp (hnext : next.SetsUp) : Nonempty (GetEnv D W) := by
  cases next with
  | init _ _ _ _ env => exact ⟨env.get⟩
  | initEx _ _ _ _ _ masterEnv _ => exact ⟨masterEnv.get⟩
  | _ => exact hnext.elim

/-- A stale slot of the master is not served as a new manager serves it. -/
theorem not_stale_of_alike (hv : v.Tidy) (hfit : ∀ s, v.Fit s) {db : Fin maxDbNum}
    {env : GetEnv D W} (halike : ServedAlike h w v db.val .master 0 0 env) :
    ¬w.Stale (.master db) := by
  intro hstale
  have hs := route_hasSlot v.toManagerConfig db .master 0 0
  obtain ⟨found, v', cell, hget, _, _⟩ := hv.getSlot_bound hs (hfit _) h env
  rw [← get_eq] at hget
  obtain ⟨found', w', hget', _⟩ := halike found v' hget
  rw [hstale.get] at hget'
  cases hget'

theorem Tidy.count_zero (hw : w.Tidy) (hslaves : w.slaveAddr = []) : w.slaveCnt = 0 := by
  rw [hw.slaves, hslaves]
  rfl

/-- A new manager after a set-up call has nothing but fit slots. -/
theorem new_fit (hnext : next.SetsUp) (hperform : perform h ({} : ManagerWorld C) next = .ok v) :
    v.Tidy ∧ ∀ s, v.Fit s := by
  rcases perform_new hnext hperform with hbad | hthrough
  · rw [perform_bad_host rfl hbad] at hperform
    cases hperform
    refine ⟨Tidy.new.withInited, ?_⟩
    intro s
    apply Fit.of_none
    cases s <;> rfl
  · obtain ⟨v', hperform', hsetup⟩ := Tidy.new.perform_through rfl rfl (.inl rfl) hthrough h
    cases hperform.symm.trans hperform'
    refine ⟨hsetup.tidy, hsetup.fit ?_⟩
    intro s _
    rw [(Tidy.new.prepared rfl next).2.1]
    cases s <;> rfl

/-- A manager before and after its first `Flush`. -/
structure Flushed (u w : ManagerWorld C) : Prop where
  before : u.Unflushed
  inited : w.inited = false
  torn : Torn u (fun _ => True) (fun _ => True) w

theorem Unflushed.flush (hu : u.Unflushed) (hflush : u.flush = .ok w) : Flushed u w := by
  obtain ⟨w', hflush', hinited, htorn⟩ := hu.tidy.flush hu.clear
  cases hflush.symm.trans hflush'
  exact ⟨hu, hinited, htorn⟩

namespace Flushed

theorem config (hw : Flushed u w) : w.toManagerConfig = u.toManagerConfig := hw.torn.config

theorem count (hw : Flushed u w) : w.slaveCnt = w.slaveAddr.length := by
  rw [hw.config]
  exact hw.before.tidy.slaves

theorem tidy (hw : Flushed u w) (hslaves : u.slaveAddr = []) : w.Tidy ∧ w.slaveCnt = 0 := by
  have hnone := hw.before.tidy.count_zero hslaves
  refine ⟨hw.torn.tidy hw.before.tidy hnone, ?_⟩
  rw [hw.config]
  exact hnone

/-- A slot that is not stale was empty before the `Flush`. -/
theorem none_of_clear (hw : Flushed u w) (hclear : ¬w.Stale s) : u.slotPtr s = none := by
  rw [← hw.torn.slotPtr]
  exact (hw.torn.vacant hw.before.tidy s).resolve_right hclear

theorem clean_of_bad (hw : Flushed u w) (hresets : Resets h w next) (hnext : next.SetsUp)
    (hbad : next.BadHost) :
    u.masterAddr = {} ∧ u.slaveAddr = [] ∧ u.option = {} ∧ ∀ s, u.slotPtr s = none := by
  obtain ⟨env⟩ := env_of_setsUp hnext
  have hnew := perform_bad_host (w := ({} : ManagerWorld C)) rfl hbad h
  obtain ⟨w', hperform, hsame, halike⟩ := hresets _ hnew
  rw [perform_bad_host hw.inited hbad] at hperform
  cases hperform
  obtain ⟨hmaster, hslaves, _, hoption⟩ := hsame
  simp only [hw.config] at hmaster hslaves hoption
  refine ⟨hmaster, hslaves, hoption, ?_⟩
  intro s
  cases s with
  | slave db index =>
      exact hw.before.tidy.no_slave (hw.before.tidy.count_zero hslaves) db index
  | master db =>
      obtain ⟨hv, hfit⟩ := new_fit hnext hnew
      have hclear := not_stale_of_alike hv hfit (halike db.val .master 0 0 env)
      apply hw.none_of_clear
      rintro ⟨cell, hcell, hdeleted⟩
      rw [← poolAt_withInited] at hcell
      exact hclear ⟨cell, hcell, hdeleted⟩

theorem clean_of_through (hw : Flushed u w) (hresets : Resets h w next) (hnext : next.SetsUp)
    (hthrough : next.Through) :
    u.slaveAddr = [] ∧ (next.option.isSome = true ∨ u.option = {}) ∧
      ∀ s, s ≠ .master 0 → u.slotPtr s = none := by
  obtain ⟨env⟩ := env_of_setsUp hnext
  obtain ⟨v, hnew, hsetup⟩ := Tidy.new.perform_through (C := C) rfl rfl (.inl rfl) hthrough h
  obtain ⟨w', hperform, hsame, halike⟩ := hresets v hnew
  rw [perform_config hw.inited hthrough hperform, hsetup.config,
    prepared_same_iff hthrough hw.count, hw.config] at hsame
  obtain ⟨hslaves, hoption⟩ := hsame
  refine ⟨hslaves, hoption, ?_⟩
  obtain ⟨htidy, hnone⟩ := hw.tidy hslaves
  obtain ⟨w'', hperform', hsetup'⟩ :=
    htidy.perform_through hw.inited hnone (hw.torn.vacant hw.before.tidy _) hthrough h
  cases hperform.symm.trans hperform'
  intro s hs
  cases s with
  | slave db index =>
      exact hw.before.tidy.no_slave (hw.before.tidy.count_zero hslaves) db index
  | master db =>
      obtain ⟨hv, hfit⟩ := new_fit hnext hnew
      have hclear := not_stale_of_alike hv hfit (halike db.val .master 0 0 env)
      obtain ⟨_, hptrs, hpools⟩ := htidy.prepared hnone next
      apply hw.none_of_clear
      rintro ⟨cell, hcell, hdeleted⟩
      rw [← htidy.poolAt_congr (congrFun hptrs _) (congrFun hpools _),
        ← hsetup'.others _ (not_fills hs)] at hcell
      exact hclear ⟨cell, hcell, hdeleted⟩

theorem resets_of_bad (hw : Flushed u w) (hclean : u.CleanFor next) (hnext : next.SetsUp)
    (hbad : next.BadHost) : Resets h w next := by
  intro v hnew
  obtain ⟨hv, hfit⟩ := new_fit hnext hnew
  obtain ⟨hmaster, hslaves, hoption, hslots⟩ := hclean.bad hbad
  obtain ⟨htidy, _⟩ := hw.tidy hslaves
  have hsame : SameConfig w.toManagerConfig v.toManagerConfig := by
    rw [perform_bad_host rfl hbad] at hnew
    cases hnew
    rw [hw.config]
    exact ⟨hmaster, hslaves, hw.before.tidy.count_zero hslaves, hoption⟩
  refine ⟨_, perform_bad_host hw.inited hbad h, hsame, ?_⟩
  apply htidy.withInited.served_alike hv hsame _ hfit h
  intro s
  apply Fit.of_none
  have hptr := hslots s
  rw [← hw.torn.slotPtr] at hptr
  cases s <;> exact hptr

theorem resets_of_through (hw : Flushed u w) (hclean : u.CleanFor next) (hnext : next.SetsUp)
    (hthrough : next.Through) : Resets h w next := by
  intro v hnew
  obtain ⟨hv, hfit⟩ := new_fit hnext hnew
  obtain ⟨hslaves, hoption, hslots⟩ := hclean.through hthrough
  obtain ⟨htidy, hnone⟩ := hw.tidy hslaves
  rw [← hw.config] at hslaves hoption
  obtain ⟨w', hperform, hsetup⟩ :=
    htidy.perform_through hw.inited hnone (hw.torn.vacant hw.before.tidy _) hthrough h
  obtain ⟨v', hnew', hsetup'⟩ := Tidy.new.perform_through rfl rfl (.inl rfl) hthrough h
  cases hnew.symm.trans hnew'
  have hsame : SameConfig w'.toManagerConfig v.toManagerConfig := by
    rw [hsetup.config, hsetup'.config]
    exact (prepared_same_iff hthrough hw.count).mpr ⟨hslaves, hoption⟩
  refine ⟨w', hperform, hsame, ?_⟩
  apply hsetup.tidy.served_alike hv hsame _ hfit h
  apply hsetup.fit
  intro s hs
  rw [(htidy.prepared hnone next).2.1, hw.torn.slotPtr]
  apply hslots s
  rintro rfl
  exact hs (fills_first hthrough)

end Flushed

/-- `Flush` resets the manager for the next call exactly if the state before it
is clean for that call. -/
theorem flush_resets_iff {first : PublicCall D W} {uses : List (PublicCall D W)}
    (hfirst : first.SetsUp) (huses : ∀ call ∈ uses, call.Uses)
    (hrun : run (perform h) ({} : ManagerWorld C) (first :: uses) = .ok u)
    (hflush : u.flush = .ok w) (hnext : next.SetsUp) : Resets h w next ↔ u.CleanFor next := by
  have hw := (unflushed_run hfirst huses hrun).flush hflush
  constructor
  · intro hresets
    exact ⟨hw.clean_of_bad hresets hnext, hw.clean_of_through hresets hnext⟩
  · intro hclean v hnew
    rcases perform_new hnext hnew with hbad | hthrough
    · exact hw.resets_of_bad hclean hnext hbad v hnew
    · exact hw.resets_of_through hclean hnext hthrough v hnew

theorem initLocal_through (option : Option ConnectionPoolOption) :
    (initLocal option).Through := by
  rw [initLocal, PublicCall.Through, parseAddressVector_localhost]
  rfl

theorem initLocal_setsUp (option : Option ConnectionPoolOption) : (initLocal option).SetsUp :=
  trivial

/-- A first `Init` and a `Flush` go through, and the options given stay. -/
theorem initLocal_flush (option : Option ConnectionPoolOption) :
    ∃ u w : ManagerWorld Int,
      run (perform ConnectionWorld.scriptedHiredis) {} [initLocal option] = .ok u ∧
      u.flush = .ok w ∧ u.slaveAddr = [] ∧ u.option = option.getD {} ∧
      ∀ s, s ≠ .master 0 → u.slotPtr s = none := by
  obtain ⟨u, hperform, hsetup⟩ := Tidy.new.perform_through (C := Int) rfl rfl (.inl rfl)
    (initLocal_through option) ConnectionWorld.scriptedHiredis
  have hrun := run_cons_ok.mpr ⟨u, hperform, run_nil (perform _) u⟩
  have hu := unflushed_run (initLocal_setsUp option) (fun call hcall => by cases hcall) hrun
  obtain ⟨w, hflush, _⟩ := hu.tidy.flush hu.clear
  refine ⟨u, w, hrun, hflush, ?_, ?_, ?_⟩
  · rw [hsetup.config]
    rfl
  · rw [hsetup.config]
    rfl
  · intro s hs
    rw [hsetup.slotPtr s hs]
    cases s <;> rfl

theorem flush_resets_of_no_options :
    ∃ u w : ManagerWorld Int,
      run (perform ConnectionWorld.scriptedHiredis) {} [initLocal none] = .ok u ∧
      u.flush = .ok w ∧ Resets ConnectionWorld.scriptedHiredis w (initLocal none) := by
  obtain ⟨u, w, hrun, hflush, hslaves, hoption, hslots⟩ := initLocal_flush none
  refine ⟨u, w, hrun, hflush, ?_⟩
  apply (flush_resets_iff (initLocal_setsUp none) (fun call hcall => by cases hcall) hrun hflush
    (initLocal_setsUp none)).mpr
  refine ⟨?_, fun _ => ⟨hslaves, .inr hoption, hslots⟩⟩
  exact fun hbad => absurd (initLocal_through none) hbad

/-- An `Init` without options after a `Flush` keeps the old ones. -/
theorem options_outlive_flush :
    ∃ u w : ManagerWorld Int,
      run (perform ConnectionWorld.scriptedHiredis) {} [initLocal (some { maxActive := 7 })] =
        .ok u ∧
      u.flush = .ok w ∧ ¬Resets ConnectionWorld.scriptedHiredis w (initLocal none) := by
  obtain ⟨u, w, hrun, hflush, _, hoption, _⟩ := initLocal_flush (some { maxActive := 7 })
  refine ⟨u, w, hrun, hflush, ?_⟩
  intro hresets
  have hu := unflushed_run (initLocal_setsUp _) (fun call hcall => by cases hcall) hrun
  have hclean := (hu.flush hflush).clean_of_through hresets (initLocal_setsUp none)
    (initLocal_through none)
  rcases hclean.2.1 with hgiven | hdefault
  · cases hgiven
  · rw [hoption] at hdefault
    cases hdefault

end ManagerWorld

end CloRedis
