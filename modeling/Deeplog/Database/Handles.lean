import Deeplog.Lib.Runs
import Deeplog.Database.Operations
import Deeplog.Database.Storage

/-!
# Handles of one root file

Any number of handles refer to a root file and operate on it one at a time. Each of them caches
the contents that it has seen last. What has been stored and left by the operations so far is
recorded next to the handles, and decides nothing. A root file behaves as its `View`, in which
handles work on the contents that have been stored last without decoding them from the file.
-/

namespace Deeplog.Database

/-- The handles, and the contents that have been stored and left last. A file that has been
unlinked is not opened again. -/
structure View where
  handles : List (Option Contents)
  linked : Bool
  stored : Contents
  left : Contents
  deriving DecidableEq

structure RootFile extends View where
  file : File

inductive Action where
  | openFile
  | clone (handle : Nat)
  | operate (handle : Nat) (op : Operation)

namespace View

/-- What a handle caches, if it has not been emptied. -/
def cached (v : View) (handle : Nat) : Option Contents := v.handles[handle]?.join

/-- A new file, with its first handle. -/
def created : View where
  handles := [some {}]
  linked := true
  stored := {}
  left := {}

/-- A further handle. -/
def attach (v : View) (contents : Contents) : View :=
  { v with handles := v.handles ++ [some contents] }

/-- What an operation that works on `base` leaves behind. -/
def operated (v : View) (handle : Nat) (op : Operation) (base : Contents) : View where
  handles := v.handles.set handle (op.plan base).cache
  linked := v.linked && (op.plan base).cache.isSome
  stored := (op.plan base).stores.getLast?.getD v.stored
  left := ((op.plan base).stores.getLast?.map op.leaves).getD v.left

/-- What a handle fetches if the file holds what has been stored last. -/
def basis (v : View) (cached : Contents) : Contents :=
  (Versioned.refresh Contents.version v.stored cached).arrange

variable (codec : ContentsCodec)

def step : Action → View → Option View
  | .openFile, v => if v.linked then some (v.attach (v.basis {})) else none
  | .clone handle, v => (v.cached handle).map v.attach
  | .operate handle op, v => (v.cached handle).bind fun cached =>
    if ∀ c ∈ (op.plan (v.basis cached)).stores, codec.Fits c then
      some (v.operated handle op (v.basis cached))
    else none

end View

namespace RootFile

variable (codec : ContentsCodec)

/-- A new root file, with its first handle. -/
def create : Option RootFile :=
  (codec.fileDatabase (File.zeros 0)).map fun opened =>
    { file := opened.1, handles := [some opened.2], linked := true, stored := {}, left := {} }

/-- The contents on which an operation of a handle works. -/
def fetched (db : RootFile) (handle : Nat) : Option Contents :=
  (db.cached handle).bind (codec.fetchContentImpl db.file)

/-- The file behind a list of stores. -/
def storeAll (file : File) (stores : List Contents) : Option File :=
  stores.foldlM codec.retireToStorage file

def step : Action → RootFile → Option RootFile
  | .openFile, db => if db.linked then (codec.fileDatabase db.file).map fun opened =>
      { db.attach opened.2 with file := opened.1 } else none
  | .clone handle, db => (db.cached handle).map fun cached =>
      { db.attach cached with file := db.file }
  | .operate handle op, db => (db.fetched codec handle).bind fun base =>
      (storeAll codec db.file (op.plan base).stores).map fun file =>
        { db.operated handle op base with file := file }

end RootFile

namespace View

variable {v v' : View} {handle other : Nat} {cached contents base : Contents} {op : Operation}

/-- The revision does not overflow. -/
def Room : Action → View → Prop
  | .operate handle op, v => ∀ cached ∈ v.cached handle, op.inPlace = false →
    v.stored.version + (op.plan (v.basis cached)).stores.length < 2 ^ 64
  | _, _ => True

instance (action : Action) (v : View) : Decidable (Room action v) :=
  match action with
  | .operate handle op =>
    inferInstanceAs (Decidable (∀ cached ∈ v.cached handle, op.inPlace = false → _))
  | .openFile | .clone _ => .isTrue trivial

/-- No handle is ahead of what has been stored, and the first revision has no entries. -/
structure Ok (v : View) : Prop where
  cached_le : ∀ handle, ∀ cached ∈ v.cached handle, cached.version ≤ v.stored.version
  cached_zero : ∀ handle, ∀ cached ∈ v.cached handle, cached.version = 0 → cached = {}
  stored_zero : v.stored.version = 0 → v.stored = {}

theorem cached_attach (h : (v.attach contents).cached handle = some cached) :
    v.cached handle = some cached ∨ cached = contents := by
  simp only [View.cached, attach, List.getElem?_append] at h ⊢
  split at h
  · exact .inl h
  · grind

theorem cached_operated (h : (v.operated handle op base).cached other = some cached) :
    (other = handle ∧ (op.plan base).cache = some cached) ∨
      (other ≠ handle ∧ v.cached other = some cached) := by
  simp only [View.cached, operated, List.getElem?_set] at h ⊢
  grind

theorem version_basis (hle : cached.version ≤ v.stored.version) :
    (v.basis cached).version = v.stored.version :=
  Versioned.version_refresh hle

theorem basis_live (v : View) (cached : Contents) :
    (v.basis cached).liveBuses = (v.basis cached).messageBuses :=
  Contents.liveBuses_arrange _

theorem Ok.basis_zero (h : v.Ok) (hcached : v.cached handle = some cached)
    (hzero : v.stored.version = 0) : v.basis cached = {} := by
  have hle := h.cached_le handle cached hcached
  have hempty := h.cached_zero handle cached hcached (by omega)
  rw [basis, Versioned.refresh, if_neg (by omega), hempty]
  rfl

theorem Ok.attach (h : v.Ok) (hle : contents.version ≤ v.stored.version)
    (hzero : contents.version = 0 → contents = {}) : (v.attach contents).Ok where
  cached_le handle cached hcached := by
    rcases cached_attach hcached with hold | rfl
    · exact h.cached_le handle cached hold
    · exact hle
  cached_zero handle cached hcached := by
    rcases cached_attach hcached with hold | rfl
    · exact h.cached_zero handle cached hold
    · exact hzero
  stored_zero := h.stored_zero

/-- An operation that is not in place increases the version with each store. -/
theorem Ok.version_operated (h : v.Ok) (hcached : v.cached handle = some cached)
    (hroom : Room (.operate handle op) v) (hop : op.inPlace = false) :
    (v.operated handle op (v.basis cached)).stored.version =
      v.stored.version + (op.plan (v.basis cached)).stores.length := by
  have hbase := version_basis (h.cached_le handle cached hcached)
  have hlast := (plan_successive (v.basis cached) hop).version_last
    (hbase.symm ▸ hroom cached hcached hop)
  rw [View.operated]
  cases hl : (op.plan (v.basis cached)).stores.getLast? with
  | none => simp [List.getLast?_eq_none_iff.mp hl]
  | some last => rw [Option.getD_some, hlast last hl, hbase]

theorem Ok.operated_inPlace (h : v.Ok) (hcached : v.cached handle = some cached)
    (hop : op.inPlace) : (v.operated handle op (v.basis cached)).Ok := by
  obtain ⟨c, hstores, hrev, hempty, hcache⟩ := plan_inPlace (v.basis cached) hop
  have hversion : c.version = v.stored.version :=
    (Contents.version_eq_iff.mpr hrev).trans (version_basis (h.cached_le handle cached hcached))
  have hstored : (v.operated handle op (v.basis cached)).stored = c := by
    rw [View.operated, hstores]
    rfl
  have hzero : c.version = 0 → c = {} := fun hc =>
    hempty (h.basis_zero hcached (hversion.symm.trans hc))
  constructor
  · intro other m hm
    rw [hstored]
    rcases cached_operated hm with ⟨-, hself⟩ | ⟨-, hother⟩
    · rw [hcache m hself]
    · exact hversion ▸ h.cached_le other m hother
  · intro other m hm
    rcases cached_operated hm with ⟨-, hself⟩ | ⟨-, hother⟩
    · rw [hcache m hself]
      exact hzero
    · exact h.cached_zero other m hother
  · rw [hstored]
    exact hzero

theorem Ok.operated_next (h : v.Ok) (hcached : v.cached handle = some cached)
    (hroom : Room (.operate handle op) v) (hop : op.inPlace = false) :
    (v.operated handle op (v.basis cached)).Ok := by
  have hbase := version_basis (h.cached_le handle cached hcached)
  have hversion := h.version_operated hcached hroom hop
  obtain ⟨m, hm, hcache⟩ := plan_cache (v.basis cached) hop (basis_live v cached)
  have hself : m.version ≤ (v.operated handle op (v.basis cached)).stored.version ∧
      (m.version = 0 → m = {}) := by
    rcases hcache with rfl | ⟨last, hlast, hsame⟩
    · exact ⟨by omega, fun hzero => h.basis_zero hcached (by omega)⟩
    · have hlength := List.length_pos_of_mem (List.mem_of_getLast? hlast)
      have hm : m.version = (v.operated handle op (v.basis cached)).stored.version := by
        rw [View.operated, hlast, Option.getD_some]
        exact Contents.version_eq_iff.mpr hsame.1
      exact ⟨hm.le, fun hzero => by omega⟩
  constructor
  · intro other x hx
    rcases cached_operated hx with ⟨-, hown⟩ | ⟨-, hother⟩
    · cases hm.symm.trans hown
      exact hself.1
    · have := h.cached_le other x hother
      omega
  · intro other x hx
    rcases cached_operated hx with ⟨-, hown⟩ | ⟨-, hother⟩
    · cases hm.symm.trans hown
      exact hself.2
    · exact h.cached_zero other x hother
  · intro hzero
    have hnil : (op.plan (v.basis cached)).stores = [] := List.length_eq_zero_iff.mp (by omega)
    rw [View.operated, hnil]
    exact h.stored_zero (by omega)

theorem Ok.operated (h : v.Ok) (hcached : v.cached handle = some cached)
    (hroom : Room (.operate handle op) v) : (v.operated handle op (v.basis cached)).Ok := by
  cases hop : op.inPlace with
  | true => exact h.operated_inPlace hcached hop
  | false => exact h.operated_next hcached hroom hop

/-- What a handle has fetched is not ahead of the file. -/
theorem Ok.attach_basis (h : v.Ok) : (v.attach (v.basis {})).Ok := by
  have hbase : (v.basis {}).version = v.stored.version := version_basis (Nat.zero_le _)
  refine h.attach hbase.le fun hzero => ?_
  rw [basis, Versioned.refresh, if_neg (by simp [← hbase, hzero])]
  rfl

theorem Ok.step {codec : ContentsCodec} {action : Action} (h : v.Ok) (hroom : Room action v)
    (hstep : View.step codec action v = some v') : v'.Ok := by
  cases action with
  | openFile =>
    rw [View.step] at hstep
    split at hstep <;> cases hstep
    exact h.attach_basis
  | clone handle =>
    obtain ⟨cached, hcached, rfl⟩ := Option.map_eq_some_iff.mp hstep
    exact h.attach (h.cached_le handle cached hcached) (h.cached_zero handle cached hcached)
  | operate handle op =>
    obtain ⟨cached, hcached, hstep⟩ := Option.bind_eq_some_iff.mp hstep
    split at hstep <;> cases hstep
    exact h.operated hcached hroom

end View

/-! ## The file behind the view -/

section

variable {codec : ContentsCodec} {f f' : File} {current base cached : Contents}
  {previous : Option Contents} {stores : List Contents} {db db' : RootFile} {action : Action}
  {actions : List Action} {handle : Nat}

/-- The file holds what has been stored last. -/
structure RootFile.Sound (codec : ContentsCodec) (db : RootFile) : Prop where
  represents : ∃ previous, codec.Represents db.file db.stored previous
  ok : db.toView.Ok

namespace RootFile

theorem storeAll_singleton (codec : ContentsCodec) (f : File) (c : Contents) :
    storeAll codec f [c] = codec.retireToStorage f c := by
  simp [storeAll]

theorem storeAll_fits (h : storeAll codec f stores = some f') : ∀ c ∈ stores, codec.Fits c := by
  induction stores generalizing f with
  | nil => nofun
  | cons c rest ih =>
    obtain ⟨g, hretire, hrest⟩ := Option.bind_eq_some_iff.mp h
    exact List.forall_mem_cons.mpr ⟨(ContentsCodec.retireToStorage_eq_some hretire).1, ih hrest⟩

theorem storeAll_of_fits (h : ∀ c ∈ stores, codec.Fits c) (f : File) :
    ∃ f', storeAll codec f stores = some f' := by
  induction stores generalizing f with
  | nil => exact ⟨f, rfl⟩
  | cons c rest ih =>
    obtain ⟨hc, hrest⟩ := List.forall_mem_cons.mp h
    obtain ⟨f', hf'⟩ := ih hrest (writeChunks f c.odd 0 (codec.chunksOf c))
    refine ⟨f', ?_⟩
    rw [storeAll, List.foldlM_cons, ContentsCodec.retireToStorage, if_pos hc]
    exact hf'

theorem storeAll_next (h : codec.Represents f current previous)
    (hbase : base.version = current.version) (hsucc : Successive base stores)
    (hroom : base.version + stores.length < 2 ^ 64)
    (hstore : storeAll codec f stores = some f') :
    ∃ previous, codec.Represents f' (stores.getLast?.getD current) previous := by
  induction stores generalizing f current base previous with
  | nil => cases hstore; exact ⟨previous, h⟩
  | cons c rest ih =>
    obtain ⟨g, hretire, hrest⟩ := Option.bind_eq_some_iff.mp hstore
    rw [List.length_cons] at hroom
    have hversion : c.version = base.version + 1 := Contents.version_next (by omega) hsucc.1
    have hnext := h.retire_next (by omega) hretire
    rw [List.getLast?_cons, Option.getD_some]
    exact ih hnext rfl hsucc.2 (by omega) hrest

/-- Every handle fetches the contents that the view says. -/
theorem Sound.fetch (h : db.Sound codec) (hcached : db.cached handle = some cached) :
    codec.fetchContentImpl db.file cached = some (db.basis cached) := by
  obtain ⟨previous, hrep⟩ := h.represents
  exact hrep.fetch (h.ok.cached_le handle cached hcached)

theorem Sound.fetched (h : db.Sound codec) :
    db.fetched codec handle = (db.cached handle).map db.basis := by
  rw [RootFile.fetched]
  cases hcached : db.cached handle with
  | none => rfl
  | some cached => exact h.fetch hcached

theorem Sound.fileDatabase (h : db.Sound codec) :
    codec.fileDatabase db.file = some (db.file, db.basis {}) := by
  obtain ⟨previous, hrep⟩ := h.represents
  exact hrep.fileDatabase

/-- A step of the root file is a step of its view. -/
theorem Sound.step_toView (h : db.Sound codec) :
    (step codec action db).map RootFile.toView = View.step codec action db.toView := by
  cases action with
  | openFile =>
    rw [step, View.step, h.fileDatabase]
    split <;> rfl
  | clone handle =>
    rw [step, View.step]
    cases db.cached handle <;> rfl
  | operate handle op =>
    rw [step, View.step, h.fetched]
    cases db.cached handle with
    | none => rfl
    | some cached =>
      simp only [Option.map_some, Option.bind_some]
      split
      case isTrue hfits =>
        obtain ⟨f', hf'⟩ := storeAll_of_fits hfits db.file
        rw [hf']
        rfl
      case isFalse hfits =>
        cases hstore : storeAll codec db.file (op.plan (db.basis cached)).stores with
        | none => rfl
        | some f' => exact absurd (storeAll_fits hstore) hfits

theorem Sound.step (h : db.Sound codec) (hroom : View.Room action db.toView)
    (hstep : step codec action db = some db') : db'.Sound codec := by
  have hview : View.step codec action db.toView = some db'.toView := by
    rw [← h.step_toView, hstep]
    rfl
  refine ⟨?_, h.ok.step hroom hview⟩
  obtain ⟨previous, hrep⟩ := h.represents
  cases action with
  | openFile =>
    rw [RootFile.step, h.fileDatabase] at hstep
    split at hstep <;> cases hstep
    exact ⟨previous, hrep⟩
  | clone handle =>
    obtain ⟨cached, -, rfl⟩ := Option.map_eq_some_iff.mp hstep
    exact ⟨previous, hrep⟩
  | operate handle op =>
    rw [RootFile.step, h.fetched] at hstep
    obtain ⟨base, hbase, hstep⟩ := Option.bind_eq_some_iff.mp hstep
    obtain ⟨cached, hcached, rfl⟩ := Option.map_eq_some_iff.mp hbase
    obtain ⟨f', hstore, rfl⟩ := Option.map_eq_some_iff.mp hstep
    have hversion := View.version_basis (h.ok.cached_le handle cached hcached)
    cases hop : op.inPlace with
    | false =>
      exact storeAll_next hrep hversion (plan_successive _ hop)
        (hversion ▸ hroom cached hcached hop) hstore
    | true =>
      obtain ⟨c, hstores, hrev, -, -⟩ := plan_inPlace (db.basis cached) hop
      have hc : c.version = db.stored.version := (Contents.version_eq_iff.mpr hrev).trans hversion
      rw [hstores, storeAll_singleton] at hstore
      refine ⟨previous, ?_⟩
      simp only [View.operated, hstores]
      exact hrep.retire_same hc hstore

theorem create_sound (h : create codec = some db) : db.Sound codec := by
  obtain ⟨opened, hopened, rfl⟩ := Option.map_eq_some_iff.mp h
  obtain ⟨f, hinit, rfl⟩ := Option.map_eq_some_iff.mp hopened
  have hcached : ∀ (handle : Nat) (cached : Contents),
      ([some {}][handle]?).join = some cached → cached = {} := by
    rintro (_ | handle) cached ⟨⟩
    rfl
  refine ⟨⟨none, ContentsCodec.initializeStorage_represents hinit⟩, ?_, ?_, fun _ => rfl⟩
  · intro handle cached h
    rw [hcached handle cached h]
  · exact fun handle cached h _ => hcached handle cached h

theorem create_of_fits (h : codec.Fits {}) :
    ∃ db, create codec = some db ∧ db.toView = View.created := by
  rw [create, ContentsCodec.fileDatabase, if_neg (by simp [File.zeros]),
    ContentsCodec.initializeStorage, ContentsCodec.retireToStorage, if_pos h]
  exact ⟨_, rfl, rfl⟩

/-- A run of the view is a run of the file. -/
theorem Sound.run_of_view {v : View} (h : db.Sound codec)
    (hroom : Runs.Along (View.step codec) View.Room actions db.toView)
    (hrun : Runs.run (View.step codec) actions db.toView = some v) :
    ∃ db', Runs.run (RootFile.step codec) actions db = some db' ∧ db'.toView = v ∧
      db'.Sound codec := by
  induction actions generalizing db with
  | nil => cases hrun; exact ⟨db, rfl, rfl, h⟩
  | cons action actions ih =>
    obtain ⟨next, hview, hrest⟩ := Runs.run_cons_eq_some.mp hrun
    rw [← h.step_toView] at hview
    obtain ⟨db₁, hstep, rfl⟩ := Option.map_eq_some_iff.mp hview
    have hnext := hroom.2 db₁.toView (by rw [← h.step_toView, hstep]; rfl)
    obtain ⟨db', hrun', hv, hsound⟩ := ih (h.step hroom.1 hstep) hnext hrest
    exact ⟨db', Runs.run_cons_eq_some.mpr ⟨db₁, hstep, hrun'⟩, hv, hsound⟩

theorem Sound.along_of_view {cond : Action → View → Prop}
    (hcond : ∀ action v, cond action v → View.Room action v) (h : db.Sound codec)
    (halong : Runs.Along (View.step codec) cond actions db.toView) :
    Runs.Along (RootFile.step codec) (fun action db => cond action db.toView) actions db := by
  induction actions generalizing db with
  | nil => trivial
  | cons action actions ih =>
    refine ⟨halong.1, fun db' hstep => ?_⟩
    refine ih (h.step (hcond action _ halong.1) hstep) (halong.2 db'.toView ?_)
    rw [← h.step_toView, hstep]
    rfl

/-- The runs of a root file are sound as long as the revision does not overflow. -/
theorem Sound.run (h : db.Sound codec)
    (hroom : Runs.Along (RootFile.step codec) (fun action db => View.Room action db.toView)
      actions db)
    (hrun : Runs.run (RootFile.step codec) actions db = some db') : db'.Sound codec :=
  Runs.invariant (fun _ _ _ hroom hs hstep => hs.step hroom hstep) hroom h hrun

end RootFile

end

end Deeplog.Database
