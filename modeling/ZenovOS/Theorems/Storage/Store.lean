import ZenovOS.Theorems.Storage.Catalog
import ZenovOS.Theorems.Storage.TreeRun

/-! # Runs of requests

On a device without faults the volume answers requests as a store would that has a working directory and a catalogue of files: what is read is
what was written there last, also when the machine has been started again in between. Whatever the device does, and wherever the power is cut,
a file stays as it is while no operation names it. -/

namespace ZenovOS.Storage
open Bytes Mach Volume

/-- What is asked of a volume. When the machine has been started again, the table is loaded and recovered. -/
inductive Request
  | read (path : Bytes) (capacity : Nat)
  | write (path data : Bytes)
  | makeDirectory (path : Bytes)
  | remove (path : Bytes)
  | rename (source destination : Bytes)
  | changeDirectory (path : Bytes)
  | restart

/-- What is given back: the bytes, or nothing if the request failed. -/
def answer (r : FsResult) (data : Bytes) : Option Bytes := if r.ok then some data else none

def Request.run : Request → Mach Volume (Option Bytes)
  | read path capacity => do
    let r ← readFileResult path capacity
    return answer r.1 r.2
  | write path data => do return answer (← writeFileResult path data false) []
  | makeDirectory path => do return answer (← makeDirectoryResult path) []
  | remove path => do return answer (← removeResult path) []
  | rename source destination => do return answer (← renameEntryResult source destination) []
  | changeDirectory path => do return answer (← changeDirectoryResult path) []
  | restart => do
    Mach.modify (·.restart [])
    let r ← remount
    if r.ok then Mach.modify Volume.activate
    return answer r []

/-- The requests one after the other, with what they give back. -/
def runRequests : List Request → Mach Volume (List (Option Bytes))
  | [] => return []
  | request :: requests => do
    let reply ← request.run
    return reply :: (← runRequests requests)

/-! ### The store -/

/-- A working directory and a catalogue. -/
structure Store where
  directory : Bytes
  catalog : Catalog Bytes FileState

abbrev Volume.store (v : Volume) : Store := ⟨v.currentDirectory, v.catalog⟩

/-- What a request comes to: it can succeed if `may` and does succeed if `must`, with this reply and this store behind it. -/
structure Effect where
  may : Prop
  must : Prop
  reply : Bytes
  after : Store

/-- The effect of a request that fails only if it must. -/
def Effect.exact (can : Prop) (reply : Bytes) (after : Store) : Effect := ⟨can, can, reply, after⟩

/-- The file can be read into a buffer of `capacity` bytes. -/
def FileState.Readable (max capacity : Nat) (st : FileState) : Prop :=
  st.type = zfsTypeFile ∧ st.size.toNat ≤ max ∧ fnv1a st.content = st.checksum ∧ st.content.length ≤ capacity

def CanEnter (c : Catalog Bytes FileState) (p : Bytes) : Prop := p = root ∨ ∃ st, c.files p = some st ∧ st.type = zfsTypeDirectory

/-- The effect of a request where no file may be larger than `max`. It has none if a path is not valid or names nothing; whether a directory can
be removed or renamed is left open. -/
def Store.effect (max : Nat) (s : Store) : Request → Option Effect
  | .read path capacity => do
    let st ← s.catalog.files (← normalizePath s.directory path)
    return .exact (st.Readable max capacity) st.content s
  | .write path data => do
    let p ← normalizePath s.directory path
    return .exact (CanWrite s.catalog max p data.length) [] ⟨s.directory, s.catalog.put p (fileState data)⟩
  | .makeDirectory path => do
    let p ← normalizePath s.directory path
    return .exact (CanMake s.catalog p) [] ⟨s.directory, s.catalog.put p directoryState⟩
  | .remove path => do
    let p ← normalizePath s.directory path
    let _ ← s.catalog.files p
    return ⟨True, p ≠ root ∧ IsFile s.catalog p, [], s.directory, s.catalog.drop p⟩
  | .rename source destination => do
    let a ← normalizePath s.directory source
    let b ← normalizePath s.directory destination
    return ⟨s.catalog.files b = none ∧ ∃ st, s.catalog.files a = some st, CanMove s.catalog a b, [], s.directory, s.catalog.move a b⟩
  | .changeDirectory path => do
    let p ← normalizePath s.directory path
    return .exact (CanEnter s.catalog p) [] ⟨p, s.catalog⟩
  | .restart => some (.exact True [] ⟨root, s.catalog⟩)

/-- An answer of the store. A request that fails changes nothing. -/
inductive Answers (max : Nat) (s : Store) (request : Request) : Option Bytes → Store → Prop
  | done {e : Effect} (effect : s.effect max request = some e) (may : e.may) : Answers max s request (some e.reply) e.after
  | refused (h : ∀ e, s.effect max request = some e → ¬e.must) : Answers max s request none s

/-- The answers to requests one after the other. -/
inductive Serves (max : Nat) : Store → List Request → List (Option Bytes) → Store → Prop
  | nil {s : Store} : Serves max s [] [] s
  | cons {s s₁ s' : Store} {request : Request} {requests : List Request} {reply : Option Bytes} {replies : List (Option Bytes)}
    (answers : Answers max s request reply s₁) (rest : Serves max s₁ requests replies s') :
    Serves max s (request :: requests) (reply :: replies) s'

/-! ### One request -/

variable {v v' : Volume} {path p : Bytes}

abbrev Volume.effect (v : Volume) : Request → Option Effect := v.store.effect v.zfsSuper.maxFileBytes

/-- The request leads to a volume that works, with an answer of the store. -/
def Obeys (v : Volume) (request : Request) (reply : Option Bytes) (v' : Volume) : Prop :=
  v'.Works ∧ v'.zfsSuper = v.zfsSuper ∧ Answers v.zfsSuper.maxFileBytes v.store request reply v'.store

theorem obeys_failed {request : Request} {r : FsResult} (hv : v.Works) (hok : r.ok = false)
    (h : ∀ e, v.effect request = some e → ¬e.must) : Obeys v request (answer r []) v := by
  rw [answer, hok]
  exact ⟨hv, rfl, .refused h⟩

theorem wp_refused {m : Mach Volume FsResult} {request : Request} (hv : v.Works)
    (h : wp m (fun r v' => r.ok = false ∧ v' = v) (fun _ => False) v) (heffect : v.effect request = none) :
    wp (do return answer (← m) []) (Obeys v request) (fun _ => False) v := by
  rw [wp_bind]
  refine wp_mono h (fun r v' h => ?_) fun _ h => h
  obtain ⟨hok, rfl⟩ := h
  exact obeys_failed hv hok fun e he => by simp [heffect] at he

theorem wp_changes {m : Mach Volume FsResult} {request : Request} {may must : Prop} {c : Catalog Bytes FileState}
    (h : wp m (fun r v' => Onward v v' ∧ Ends v v' may must c r.ok) (fun _ => False) v)
    (heffect : v.effect request = some ⟨may, must, [], v.currentDirectory, c⟩) :
    wp (do return answer (← m) []) (Obeys v request) (fun _ => False) v := by
  rw [wp_bind]
  refine wp_mono h (fun r v' h => ?_) fun _ h => h
  obtain ⟨honward, hend⟩ := h
  refine ⟨honward.works, honward.zfsSuper, ?_⟩
  unfold answer Volume.store
  rw [honward.currentDirectory]
  generalize r.ok = ok at hend
  cases hend with
  | done may catalog =>
    rw [catalog]
    exact .done heffect may
  | refused why catalog =>
    rw [catalog]
    refine .refused fun e he => ?_
    obtain rfl := Option.some.inj (heffect.symm.trans he)
    exact why

theorem readFileResult_obeys (capacity : Nat) (hv : v.Works) :
    wp (Request.read path capacity).run (Obeys v (.read path capacity)) (fun _ => False) v := by
  unfold Request.run
  rw [wp_bind]
  refine wp_mono (readFileResult_end hv.ready.laid hv.ready.mounted hv.fit) (fun r v' h => ?_) fun _ h => h
  obtain ⟨halike, hmounted, hend⟩ := h
  refine ⟨halike.works hmounted hv, halike.zfsSuper, ?_⟩
  have hstore : v'.store = v.store := by rw [Volume.store, halike.currentDirectory, halike.catalog]
  rw [hstore]
  cases hend with
  | read yields fits =>
    obtain ⟨p, i, hp, hfind, hb⟩ := yields
    obtain rfl := hb.content
    have heffect : v.effect (.read path capacity) = some
        (.exact ((v.stateAt i).Readable v.zfsSuper.maxFileBytes capacity) (v.content i (v.zfsEntries i)) v.store) := by
      simp only [Store.effect, hp, catalog_files, lookup_some hfind, Option.bind_eq_bind, Option.bind_some]
      rfl
    exact .done heffect ⟨hb.type, hb.size, hb.checksum, fits⟩
  | refused ok none =>
    rw [answer, ok]
    refine .refused fun e he => ?_
    simp only [Store.effect, Option.bind_eq_bind, Option.bind_eq_some_iff] at he
    obtain ⟨p, hp, st, hst, he⟩ := he
    obtain ⟨i, hfind, rfl⟩ := Option.map_eq_some_iff.mp hst
    obtain rfl := Option.some.inj he
    exact fun ⟨htype, hsize, hsum, hfits⟩ => absurd hfits (Nat.not_le.mpr (none _ ⟨p, i, hp, hfind, htype, hsize, rfl, hsum⟩))

theorem changeDirectoryResult_obeys (hv : v.Works) :
    wp (Request.changeDirectory path).run (Obeys v (.changeDirectory path)) (fun _ => False) v := by
  unfold Request.run changeDirectoryResult
  rw [wp_bind, wp_bind, wp_get]
  refine wp_ite (fun h => absurd hv.ready.mounted (by simpa using h)) fun _ => ?_
  rcases hn : normalizePath v.currentDirectory path with _ | p
  · exact obeys_failed hv rfl fun e he => by simp [Store.effect, hn] at he
  have hcopy : pathCopy p pathBytes = some p := if_pos (normalizePath_stored hn).2
  have heffect : v.effect (.changeDirectory path) = some (.exact (CanEnter v.catalog p) [] ⟨p, v.catalog⟩) := by
    simp only [Store.effect, hn, Option.bind_eq_bind, Option.bind_some]
    rfl
  have hcase : directoryError v p = none ∧ CanEnter v.catalog p ∨
      (∃ status, directoryError v p = some status ∧ (fsFailure .query status).ok = false) ∧ ¬CanEnter v.catalog p := by
    unfold directoryError CanEnter
    by_cases hroot : p = root
    · simp [hroot]
    rcases hfind : v.findEntry p with _ | i
    · simp [hroot, lookup_none_iff.mpr hfind, FsResult.ok]
    · by_cases htype : (v.zfsEntries i).type = zfsTypeDirectory
      · simp [hroot, htype, lookup_some hfind, Volume.stateAt]
      · simp [hroot, htype, lookup_some hfind, Volume.stateAt, FsResult.ok]
  dsimp only
  rw [hcopy]
  rcases hcase with ⟨herror, hcan⟩ | ⟨⟨status, herror, hok⟩, hcan⟩
  · rw [herror]
    exact ⟨⟨⟨hv.ready.mounted, hv.ready.laid, hv.ready.inSync, hv.ready.settled, hv.ready.distinct⟩, hv.fit.present, hv.fit.writable,
      hv.fit.outcomes⟩, rfl, .done heffect hcan⟩
  · rw [herror]
    refine obeys_failed hv hok fun e he => ?_
    obtain rfl := Option.some.inj (heffect.symm.trans he)
    exact hcan

theorem restart_obeys (hv : v.Works) : wp Request.restart.run (Obeys v .restart) (fun _ => False) v := by
  have hkeeps : RecoveryKeeps v.zfsSuper.entries fun t => ∀ i < v.zfsSuper.entries, t i = v.zfsEntries i := by
    refine ⟨fun t i h hi htransaction => ?_, fun t i h hi hcommitted _ => ?_, fun t i h hi hcommitted _ => ?_⟩
    · rw [h i hi, (hv.ready.settled i hi).notTransaction] at htransaction
      cases htransaction
    all_goals
      rw [h i hi, (hv.ready.settled i hi).notCommitted] at hcommitted
      cases hcommitted
  unfold Request.run
  rw [wp_bind, wp_modify, wp_bind]
  refine wp_mono (remount_spec (v := v.restart []) hkeeps hv.ready.laid fun i hi => (hv.ready.inSync i hi).symm) (fun r v' h => ?_)
    fun v' h => h.1 ⟨hv.fit.present, hv.fit.writable, rfl⟩
  obtain ⟨hok, h, hsync, hsettled⟩ | ⟨-, hfit, -⟩ := h
  · have hentries : ∀ i < v.zfsSuper.entries, v'.zfsEntries i = v.zfsEntries i := fun i hi => by
      rw [hsync i (by rw [h.zfsSuper]; exact hi), h.table i hi]
    have hslots := restart_slots h.toSameData hv.ready.laid
    have hsuper : v'.zfsSuper = v.zfsSuper := h.zfsSuper
    have hfit := h.fit ⟨hv.fit.present, hv.fit.writable, rfl⟩
    have hworks : v'.activate.Works := by
      refine ⟨⟨rfl, (restart_sameDevice h.toSameData).laid hv.ready.laid, hsync, fun i hi => ?_, fun i hi j hj => ?_⟩, hfit.present,
        hfit.writable, hfit.outcomes⟩
      · rw [show v'.activate.zfsEntries i = v.zfsEntries i from hentries i (hsuper ▸ hi)]
        exact hv.ready.settled i (hsuper ▸ hi)
      · show (v'.zfsEntries i).visible → (v'.zfsEntries j).visible → (v'.zfsEntries i).name = (v'.zfsEntries j).name → i = j
        rw [hentries i (hsuper ▸ hi), hentries j (hsuper ▸ hj)]
        exact hv.ready.distinct i (hsuper ▸ hi) j (hsuper ▸ hj)
    have hcatalog : v'.activate.catalog = v.catalog := by
      refine catalog_ext (fun q => lookup_congr hsuper fun i hi _ => ⟨hentries i hi, hslots i hi⟩) ?_
      show vacancies Vacant v'.zfsSuper.entries v'.zfsEntries = vacancies Vacant v.zfsSuper.entries v.zfsEntries
      rw [hsuper]
      exact congrArg Finset.card (Finset.filter_congr fun i hi => by rw [hentries i (Finset.mem_range.mp hi)])
    rw [if_pos hok, wp_bind, wp_modify, answer, if_pos hok]
    refine ⟨hworks, hsuper, ?_⟩
    have hstore : v'.activate.store = ⟨root, v.catalog⟩ := by
      rw [Volume.store, hcatalog]
      rfl
    rw [hstore]
    exact .done (show v.effect .restart = some (.exact True [] ⟨root, v.catalog⟩) from rfl) trivial
  · exact absurd ⟨hv.fit.present, hv.fit.writable, rfl⟩ hfit

/-! ### Runs -/

theorem Request.run_obeys (request : Request) (hv : v.Works) : wp request.run (Obeys v request) (fun _ => False) v := by
  have hmounted := hv.ready.mounted
  cases request with
  | read path capacity => exact readFileResult_obeys capacity hv
  | write path data =>
    rcases hn : normalizePath v.currentDirectory path with _ | p
    · exact wp_refused hv (by simp [writeFileResult, hmounted, hn, FsResult.ok]) (by simp [Store.effect, hn])
    · exact wp_changes (writeFileResult_ends hv hn) (by simp [Store.effect, Effect.exact, hn])
  | makeDirectory path =>
    rcases hn : normalizePath v.currentDirectory path with _ | p
    · exact wp_refused hv (by simp [makeDirectoryResult, hmounted, hn, FsResult.ok]) (by simp [Store.effect, hn])
    · exact wp_changes (makeDirectoryResult_ends hv hn) (by simp [Store.effect, Effect.exact, hn])
  | remove path =>
    rcases hn : normalizePath v.currentDirectory path with _ | p
    · exact wp_refused hv (by simp [removeResult, hmounted, hn, FsResult.ok]) (by simp [Store.effect, hn])
    rcases hfind : v.findEntry p with _ | i
    · have hnone := lookup_none_iff.mpr hfind
      refine wp_refused hv ?_ (by simp [Store.effect, hn, hnone])
      by_cases hroot : p = root <;> simp [removeResult, hmounted, hn, hfind, hroot, FsResult.ok]
    · exact wp_changes (removeResult_ends hv hn) (by simp [Store.effect, hn, lookup_some hfind])
  | rename source destination =>
    rcases ha : normalizePath v.currentDirectory source with _ | a
    · exact wp_refused hv (by simp [renameEntryResult, hmounted, ha, FsResult.ok]) (by simp [Store.effect, ha])
    rcases hb : normalizePath v.currentDirectory destination with _ | b
    · exact wp_refused hv (by simp [renameEntryResult, hmounted, ha, hb, FsResult.ok]) (by simp [Store.effect, ha, hb])
    · exact wp_changes (renameEntryResult_ends hv ha hb) (by simp [Store.effect, ha, hb])
  | changeDirectory path => exact changeDirectoryResult_obeys hv
  | restart => exact restart_obeys hv

/-- Without faults of the device every run of requests ends, with the answers that a store gives, and the volume shows what the store has. -/
theorem runRequests_serves (requests : List Request) (hv : v.Works) :
    wp (runRequests requests) (fun replies v' => v'.Works ∧ Serves v.zfsSuper.maxFileBytes v.store requests replies v'.store)
      (fun _ => False) v := by
  induction requests generalizing v with
  | nil => exact ⟨hv, .nil⟩
  | cons request requests ih =>
    unfold runRequests
    refine wp_seq (request.run_obeys hv) (fun _ hcut => hcut) fun reply v₁ h₁ => ?_
    obtain ⟨hworks, hsuper, hanswers⟩ := h₁
    refine wp_seq (ih hworks) (fun _ hcut => hcut) fun replies v₂ h₂ => ?_
    rw [hsuper] at h₂
    exact ⟨h₂.1, .cons hanswers h₂.2⟩

theorem runRequests_serves_fresh :
    let requests := [.makeDirectory (ascii "/d"), .write (ascii "/d/x") (ascii "text"), .restart, .read (ascii "/d/x") 8]
    ∃ replies v', runRequests requests (fresh []) = (some replies, v') ∧ v'.Works ∧
      Serves (fresh []).zfsSuper.maxFileBytes (fresh []).store requests replies v'.store := by
  have hworks : (fresh []).Works := ⟨fresh_ready [], ⟨rfl, rfl, rfl⟩⟩
  generalize fresh [] = v at hworks ⊢
  exact wp_ends (runRequests_serves _ hworks)

/-! ### Runs with faults -/

/-- The paths that an operation can change. -/
def FsOp.names (currentDirectory : Bytes) : FsOp → List (Option Bytes)
  | write input _ _ => [normalizePath currentDirectory input]
  | touch input => [normalizePath currentDirectory input >>= normalizePath currentDirectory]
  | makeDirectory input => [normalizePath currentDirectory input]
  | remove input => [normalizePath currentDirectory input]
  | rename sourceInput destinationInput => [normalizePath currentDirectory sourceInput, normalizePath currentDirectory destinationInput]
  | copy _ destination => [normalizePath currentDirectory destination]

/-- Runs of operations that meet `M`, in any working directory and with any faults of the device. A power cut ends with a completed remount, and
there may be one at any other time. -/
inductive FaultyRun (M : Bytes → FsOp → Prop) (u : Volume) : Volume → Prop
  | start : FaultyRun M u u
  | step {v v' : Volume} {op : FsOp} {r : FsResult} (d : Bytes) (os : List Outcome) (run : FaultyRun M u v) (meets : M d op)
      (step : op.run (v.enter d os) = (some r, v')) : FaultyRun M u v'
  | cut {v v' w : Volume} {op : FsOp} (d : Bytes) (os : List Outcome) (run : FaultyRun M u v) (meets : M d op)
      (step : op.run (v.enter d os) = (none, v')) (remounted : Remounted v' w) : FaultyRun M u w.activate
  | remount {v w : Volume} (run : FaultyRun M u v) (remounted : Remounted v w) : FaultyRun M u w.activate

theorem FsOp.run_kept {P : Bytes → Prop} {u : Volume} {op : FsOp} (hk : Kept P u v)
    (h : ∀ p, some p ∈ op.names v.currentDirectory → ¬P p) : wp op.run (fun _ v' => Kept P u v') (fun v' => Durable P u v') v := by
  cases op with
  | write input data append => exact wp_mono (hk.write fun p hp => h p (by simp [names, hp])) (fun _ _ h => h.2) fun _ h => h
  | touch input =>
    exact wp_mono (hk.touch fun p again hp _ hagain => h again (by simp [names, hp, hagain])) (fun _ _ h => h.2) fun _ h => h
  | makeDirectory input => exact wp_mono (hk.makeDirectory fun p hp _ => h p (by simp [names, hp])) (fun _ _ h => h.2) fun _ h => h
  | remove input => exact wp_mono (hk.remove fun p hp => h p (by simp [names, hp])) (fun _ _ h => h.2) fun _ h => h
  | rename source destination =>
    exact wp_mono (hk.rename (fun p hp => h p (by simp [names, hp])) fun p hp => h p (by simp [names, hp])) (fun _ _ h => h.2)
      fun _ h => h
  | copy source destination => exact wp_mono (hk.copy fun p hp => h p (by simp [names, hp])) (fun _ _ h => h.2) fun _ h => h

/-- What no operation of a run names is as it was, now and after a remount. -/
theorem faultyRun_keeps {u : Volume} {q : Bytes} (hu : u.Ready) (h : FaultyRun (fun d op => some q ∉ op.names d) u v) :
    (v.zfsMounted = true → v.lookup q = u.lookup q) ∧ ∀ w, Remounted v w → w.lookup q = u.lookup q := by
  have hkept : Kept (· = q) u v := by
    induction h with
    | start => exact hu.kept
    | step d os _ meets step ih =>
      have hkept := wp_ended (FsOp.run_kept (ih.enter d os) fun p hp hq => meets (hq ▸ hp)) step
      exact hkept
    | cut d os _ meets step remounted ih =>
      have hdurable := wp_cut (FsOp.run_kept (ih.enter d os) fun p hp hq => meets (hq ▸ hp)) step
      exact Kept.remounted hdurable remounted
    | remount _ remounted ih => exact Kept.remounted ih.durable remounted
  exact ⟨fun hmounted => (hkept.mounted hmounted).2 q rfl, fun w hw => (hkept.durable w hw).2 q rfl⟩

theorem faultyRun_keeps_fresh :
    let v := ((FsOp.write (ascii "/b") [1] false).run ((fresh []).enter root [])).2
    (v.zfsMounted = true → v.lookup (ascii "/a") = (fresh []).lookup (ascii "/a")) ∧
      ∀ w, Remounted v w → w.lookup (ascii "/a") = (fresh []).lookup (ascii "/a") :=
  faultyRun_keeps (fresh_ready []) (.step root [] .start (by decide) (run_of_fst rfl))

end ZenovOS.Storage
