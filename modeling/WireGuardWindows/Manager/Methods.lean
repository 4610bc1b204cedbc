import WireGuardWindows.Conf.Secrets
import WireGuardWindows.Manager.Requests
import WireGuardWindows.Manager.Rpc
import WireGuardWindows.Systems.SideBySide

/-!
# The methods of the manager

What `ServeConn` calls for a session, with the token of the session: zero for an operator, who
may start and stop tunnels but neither change them nor learn their secrets. The services, the
running tunnels and the updater are `Outside`: a state of their own that every call may change.

The scan of `Start` holds the lock of the tracked tunnels, so it sees one state of them; the
stops it begins and `InstallTunnel` run side by side and are one call here. Entries of the
configuration directory are readable files.
-/

namespace WireGuardWindows.Manager.ManagerService
open GoStd Strings Unicode Systems Loops Conf

structure Outside (σ : Type) where
  dpapi : Dpapi
  urlParse : Str → Option URL
  decoders : List (Str → Option Str)
  uninstallTunnel : Str → σ → Uninstalled × σ
  replace : List Str → Str → σ → Err × σ
  waitForStop : Str → σ → Err × σ
  state : Str → σ → (TunnelState × Err) × σ
  globalState : σ → TunnelState × σ
  /-- In the order of the loop over the map. -/
  trackedTunnels : σ → List (Str × TunnelState)
  uapi : Str → σ → Except Str Str × σ
  adapter : Str → σ → Except Str (Driver.Interface × List Driver.Visit) × σ
  /-- Sets `haveQuit` and says whether it was set. -/
  haveQuit : σ → Bool × σ
  quitManagers : σ → Unit × σ
  updateState : σ → UpdateState × σ
  downloadVerifyAndExecute : σ → Unit × σ
  storeErrorText : StoreError → Str
  uapiErrorText : UAPIError → Str

structure Machine (σ : Type) where
  world : World
  outside : σ

abbrev Serve (σ : Type) := EStateM Str (Machine σ)

abbrev Answer (σ : Type) := EStateM Empty (Machine σ)

def orThrow {ε σ α : Type} : Except ε α → EStateM ε σ α
  | .ok a => pure a
  | .error e => throw e

def listConfigNames : Store (List Str) := do
  let dir ← tunnelConfigurationsDirectory
  let files ← Store.readDir dir
  return files.filterMap fun file => (nameFromPath file).toOption

def configPath (config : Config) : Store Str :=
  if ¬ tunnelNameIsValid config.name then throw .tunnelNameIsNotValid
  else do
    let _ ← tunnelConfigurationsDirectory
    return config.name ++ configFileSuffix

section
variable {σ : Type} (os : Outside σ)

def onStore {α : Type} (x : Store α) : Serve σ α := fun m =>
  match x m.world with
  | .ok a w => .ok a { m with world := w }
  | .error e w => .error (os.storeErrorText e) { m with world := w }

def outside {ε α : Type} (f : σ → α × σ) : EStateM ε (Machine σ) α :=
  fun m => .ok (f m.outside).1 { m with outside := (f m.outside).2 }

def ofErr : Err → Serve σ Unit
  | none => pure ()
  | some e => throw e

variable (elevatedToken : Nat)

def load (tunnelName : Str) : Serve σ Config :=
  onStore os (loadFromName os.dpapi os.urlParse os.decoders tunnelName)

def uapiRuntimeConfig (storedConfig : Config) : Serve σ Config := do
  let report ← outside (os.uapi storedConfig.name) >>= orThrow
  orThrow ((fromUAPI report storedConfig).mapError os.uapiErrorText)

def driverRuntimeConfig (tunnelName : Str) (storedConfig : Config) : Serve σ Config := do
  let records ← outside (os.adapter tunnelName) >>= orThrow
  return Driver.configOf storedConfig records.1 records.2

def backendConfig (tunnelName : Str) (storedConfig : Config) : Serve σ Config :=
  if storedConfig.hasWebSocketPeers then uapiRuntimeConfig os storedConfig
    else driverRuntimeConfig os tunnelName storedConfig

def runtimeConfig (tunnelName : Str) : Serve σ Config := do
  let storedConfig ← load os tunnelName
  let config ← backendConfig os tunnelName storedConfig
  return if elevatedToken = 0 then config.redact else config

def intersecting (c : Config) : List (Str × TunnelState) → List Str → Serve σ (List Str × Str)
  | [], tt => return (tt, [])
  | (t, state) :: rest, tt => do
    match ← attempt (load os t) with
    | .error _ => intersecting c rest tt
    | .ok c2 =>
      if !c.intersectsWith c2 then intersecting c rest tt
      else if t ≠ [] ∧ (state = .starting ∨ state = .unknown) then return (tt ++ [t], t)
      else intersecting c rest (tt ++ [t])

def finishActivating (tunnelName : Str) : Str :=
  str "Please allow the tunnel " ++ [0xE2, 0x80, 0x98] ++ tunnelName ++ [0xE2, 0x80, 0x99] ++
    str " to finish activating"

def start (tunnelName : Str) : Serve σ Unit := do
  let c ← load os tunnelName
  let tracked ← outside fun s => (os.trackedTunnels s, s)
  let found ← intersecting os c tracked []
  if found.2 ≠ [] then throw (finishActivating found.2)
  else do
    let path ← onStore os (configPath c)
    outside (os.replace found.1 path) >>= ofErr

def stop (tunnelName : Str) : Serve σ Unit := do
  let uninstalled ← outside (os.uninstallTunnel tunnelName)
  onStore os (Manager.stop os.dpapi os.urlParse os.decoders uninstalled tunnelName)

def delete (tunnelName : Str) : Serve σ Unit :=
  if elevatedToken = 0 then throw (os.storeErrorText .accessDenied)
  else do
    let uninstalled ← outside (os.uninstallTunnel tunnelName)
    onStore os (Manager.delete os.dpapi os.urlParse os.decoders elevatedToken
      uninstalled tunnelName)

def create (config : Config) : Serve σ Tunnel := do
  let name ← onStore os (Manager.create os.dpapi elevatedToken config)
  return ⟨name⟩

def tunnels : Serve σ (List Tunnel) := do
  let names ← onStore os listConfigNames
  return names.map fun name => ⟨name⟩

def tunnelsToStop (stopTunnelsOnQuit : Bool) : Serve σ (List Str) :=
  if stopTunnelsOnQuit then onStore os listConfigNames else pure []

def quit (stopTunnelsOnQuit : Bool) : Serve σ Bool :=
  if elevatedToken = 0 then throw (os.storeErrorText .accessDenied)
  else do
    let alreadyQuit ← outside os.haveQuit
    if alreadyQuit then return true
    else do
      let names ← tunnelsToStop os stopTunnelsOnQuit
      names.forM fun name => do
        let _ ← outside (os.uninstallTunnel name)
      outside os.quitManagers
      return false

def update : Answer σ Unit :=
  if elevatedToken = 0 then return () else outside os.downloadVerifyAndExecute

def pointer {α : Type} (x : Serve σ α) : Answer σ (Option α × Err) := fun m =>
  match x m with
  | .ok a m' => .ok (some a, none) m'
  | .error e m' => .ok (none, some e) m'

def value {α : Type} (zero : α) (x : Serve σ α) : Answer σ (α × Err) := do
  let r ← pointer x
  return (r.1.getD zero, r.2)

def error (x : Serve σ Unit) : Answer σ Err := do
  let r ← pointer x
  return r.2

def serve : (c : Call) → Answer σ (Outcome c)
  | .storedConfig tunnelName =>
    pointer (onStore os (storedConfig os.dpapi os.urlParse os.decoders elevatedToken tunnelName))
  | .runtimeConfig tunnelName => pointer (runtimeConfig os elevatedToken tunnelName)
  | .start tunnelName => error (start os tunnelName)
  | .stop tunnelName => error (stop os tunnelName)
  | .waitForStop tunnelName => outside (os.waitForStop tunnelName)
  | .delete tunnelName => error (delete os elevatedToken tunnelName)
  | .state tunnelName => outside (os.state tunnelName)
  | .globalState => outside os.globalState
  | .create config => pointer (create os elevatedToken config)
  | .tunnels => value [] (tunnels os)
  | .quit stopTunnelsOnQuit => value false (quit os elevatedToken stopTunnelsOnQuit)
  | .updateState => outside os.updateState
  | .update => update os elevatedToken

def AtPositions : (c : Call) → Outcome c → Prop
  | .storedConfig _, r => ∀ c ∈ r.1, c.AtPositions
  | .runtimeConfig _, r => ∀ c ∈ r.1, c.AtPositions
  | _, _ => True

def session (calls : List Call) : Answer σ (List (Σ c, Outcome c)) :=
  calls.mapM fun c => do return ⟨c, ← serve os elevatedToken c⟩

end

section
variable {σ : Type} (os : Outside σ)

def configIn (name : Str) (encrypted : Bytes) : Except StoreError Config := do
  let text ← plainText os.dpapi encrypted name
  (fromWgQuickWithUnknownEncoding os.urlParse os.decoders text name).mapError .invalid

structure SameStore (files files' : Files) : Prop where
  names : (files.entries toLower configurationsDirectory).map File.name =
    (files'.entries toLower configurationsDirectory).map File.name
  configs : ∀ name, Option.Rel (fun b b' =>
    Alike SameButSecrets (configIn os name b) (configIn os name b'))
    (files.read toLower configurationsDirectory (name ++ configFileSuffix))
      (files'.read toLower configurationsDirectory (name ++ configFileSuffix))

end

structure SameWorld (base base' : Files) (w w' : World) : Prop where
  files : w.files = base
  files' : w'.files = base'
  calls : w.calls = w'.calls
  removals : w.removals = w'.removals

def Outside.answering {σ : Type} (os : Outside σ) (uapi : Str → σ → Except Str Str × σ)
    (adapter : Str → σ → Except Str (Driver.Interface × List Driver.Visit) × σ) : Outside σ :=
  { os with uapi := uapi, adapter := adapter }

structure SameAnswers {σ : Type} (os os' : Outside σ) : Prop where
  uapi : ∀ name s, (os.uapi name s).2 = (os'.uapi name s).2 ∧
    Alike (fun r r' => List.Forall₂ SameLine (r.splitOn newline) (r'.splitOn newline))
      (os.uapi name s).1 (os'.uapi name s).1
  adapter : ∀ name s, (os.adapter name s).2 = (os'.adapter name s).2 ∧
    Alike SameWalk (os.adapter name s).1 (os'.adapter name s).1

structure SameMachine {σ : Type} (base base' : Files) (m m' : Machine σ) : Prop where
  world : SameWorld base base' m.world m'.world
  outside : m.outside = m'.outside

section
variable {σ : Type} {os : Outside σ} {base base' : Files}

theorem agrees_system : Agrees (SameWorld base base') Store.system Store.system Eq := by
  intro w w' h
  have hnext : SameWorld base base' { w with calls := w.calls.tail }
      { w' with calls := w'.calls.tail } :=
    ⟨h.files, h.files', congrArg List.tail h.calls, h.removals⟩
  simp only [Store.system, Store.call, bind, EStateM.bind]
  rw [← h.calls] at hnext ⊢
  cases w.calls.headD .succeeds with
  | succeeds => exact .inl ⟨(), _, (), _, rfl, rfl, trivial, hnext⟩
  | fails _ => exact .inr ⟨.system, _, _, rfl, rfl, hnext⟩

theorem agrees_configurationsDirectory :
    Agrees (SameWorld base base') tunnelConfigurationsDirectory tunnelConfigurationsDirectory
    fun dir dir' => dir = configurationsDirectory ∧ dir' = configurationsDirectory :=
  agrees_system.bind fun _ _ _ => .pure ⟨rfl, rfl⟩

theorem agrees_orThrow {ε σ τ α β : Type} {S : σ → τ → Prop} {R : α → β → Prop} {x : Except ε α}
    {y : Except ε β} (h : Alike R x y) : Agrees S (orThrow x) (orThrow y) R := by
  obtain ⟨e, rfl, rfl⟩ | ⟨a, b, rfl, rfl, hab⟩ := h.cases
  · exact .throw e
  · exact .pure hab

section
variable (hstore : SameStore os base base')
include hstore

theorem agrees_readFile (name : Str) : Agrees (SameWorld base base')
    (Store.readFile configurationsDirectory (name ++ configFileSuffix))
      (Store.readFile configurationsDirectory (name ++ configFileSuffix))
    fun b b' => Alike SameButSecrets (configIn os name b) (configIn os name b') := by
  refine agrees_system.bind fun _ _ _ => ?_
  intro w w' h
  have hread := hstore.configs name
  rw [← h.files, ← h.files'] at hread
  simp only [bind, EStateM.bind, get, getThe, MonadStateOf.get, EStateM.get]
  generalize w.files.read toLower configurationsDirectory (name ++ configFileSuffix) =
    contents at hread ⊢
  generalize w'.files.read toLower configurationsDirectory (name ++ configFileSuffix) =
    contents' at hread ⊢
  cases hread with
  | none => exact .inr ⟨.notFound, w, w', rfl, rfl, h⟩
  | @some b b' hsame => exact .inl ⟨b, w, b', w', rfl, rfl, hsame, h⟩

omit hstore in
theorem agrees_decrypted {name : Str} {b b' : Bytes}
    (h : Alike SameButSecrets (configIn os name b) (configIn os name b')) :
    let parse := fun text =>
      Store.ofExcept (fromWgQuickWithUnknownEncoding os.urlParse os.decoders text name)
    Agrees (SameWorld base base') (decrypt os.dpapi b name >>= parse)
      (decrypt os.dpapi b' name >>= parse) SameButSecrets := by
  intro parse
  have hdecrypt : ∀ b : Bytes, decrypt os.dpapi b name >>= parse = Store.system >>= fun _ =>
      orThrow (configIn os name b) := by
    intro b
    unfold parse
    rw [configIn]
    generalize os.dpapi = dpapi, os.urlParse = urlParse, os.decoders = decoders
    rw [decrypt, bind_assoc]
    congr 1
    funext _
    rw [plainText]
    cases dpapi.unprotect b with
    | none => rfl
    | some plain =>
      obtain ⟨text, outName⟩ := plain
      by_cases hname : outName = name
      · simp only [if_pos hname, pure_bind]
        change Store.ofExcept (fromWgQuickWithUnknownEncoding urlParse decoders text name) =
          orThrow ((fromWgQuickWithUnknownEncoding urlParse decoders text name).mapError .invalid)
        cases fromWgQuickWithUnknownEncoding urlParse decoders text name <;> rfl
      · simp only [if_neg hname]
        rfl
  rw [hdecrypt, hdecrypt]
  exact agrees_system.bind fun _ _ _ => agrees_orThrow h

theorem agrees_loadFromName (name : Str) :
    Agrees (SameWorld base base') (loadFromName os.dpapi os.urlParse os.decoders name)
    (loadFromName os.dpapi os.urlParse os.decoders name) SameButSecrets := by
  rw [loadFromName]
  by_cases hvalid : tunnelNameIsValid name = true
  · rw [if_neg (not_not.mpr hvalid)]
    refine agrees_configurationsDirectory.bind ?_
    rintro _ _ ⟨rfl, rfl⟩
    rw [loadFromPath, nameFromPath_config hvalid]
    refine Agrees.bind (R := fun n n' => n = name ∧ n' = name) (.pure ⟨rfl, rfl⟩) ?_
    rintro _ _ ⟨rfl, rfl⟩
    refine (agrees_readFile hstore _).bind fun b b' hsame => ?_
    rw [if_pos (suffix_isSuffixOf _ _), if_pos (suffix_isSuffixOf _ _)]
    exact agrees_decrypted hsame
  · rw [if_pos hvalid]
    exact .throw _

theorem agrees_listConfigNames :
    Agrees (SameWorld base base') listConfigNames listConfigNames Eq := by
  refine agrees_configurationsDirectory.bind ?_
  rintro _ _ ⟨rfl, rfl⟩
  have hreadDir : Agrees (SameWorld base base') (Store.readDir configurationsDirectory)
      (Store.readDir configurationsDirectory) Eq := by
    refine agrees_system.bind fun _ _ _ => ?_
    intro w w' h
    refine .inl ⟨_, w, _, w', rfl, rfl, ?_, h⟩
    rw [h.files, h.files', hstore.names]
  refine hreadDir.bind fun files files' heq => .pure ?_
  rw [heq]

/-- A stop without the service looks whether there is a configuration, not what is in it. -/
theorem agrees_stop (uninstalled : Uninstalled) (name : Str) :
    Agrees (SameWorld base base') (Manager.stop os.dpapi os.urlParse os.decoders uninstalled name)
      (Manager.stop os.dpapi os.urlParse os.decoders uninstalled name) Eq := by
  cases uninstalled with
  | done => exact .pure rfl
  | fails => exact .throw _
  | serviceDoesNotExist =>
    intro w w' h
    rw [Manager.stop]
    dsimp only
    obtain ⟨c, v, c', v', hx, hy, -, hv⟩ | ⟨e, v, v', hx, hy, hv⟩ :=
      agrees_loadFromName hstore name w w' h
    · rw [hx, hy]
      exact .inl ⟨(), v, (), v', rfl, rfl, rfl, hv⟩
    · rw [hx, hy]
      exact .inr ⟨.serviceDoesNotExist, v, v', rfl, rfl, hv⟩

end

theorem agrees_configPath {c c' : Config} (h : SameButSecrets c c') :
    Agrees (SameWorld base base') (configPath c) (configPath c') Eq := by
  rw [configPath, configPath, ← h.name]
  exact .ite (fun _ => .throw _) fun _ => agrees_configurationsDirectory.bind fun _ _ _ => .pure rfl

end

section
variable {base base' : Files} {σ : Type} {os : Outside σ} {uapi : Str → σ → Except Str Str × σ}
  {adapter : Str → σ → Except Str (Driver.Interface × List Driver.Visit) × σ}

theorem agrees_onStore {α β : Type} {R : α → β → Prop} {x : Store α} {y : Store β}
    (h : Agrees (SameWorld base base') x y R) :
    Agrees (SameMachine base base') (onStore os x) (onStore (os.answering uapi adapter) y) R := by
  intro m m' hm
  rw [onStore, onStore]
  obtain ⟨a, w, b, w', hx, hy, hab, hw⟩ | ⟨e, w, w', hx, hy, hw⟩ := h _ _ hm.world
  · rw [hx, hy]
    exact .inl ⟨a, _, b, _, rfl, rfl, hab, ⟨hw, hm.outside⟩⟩
  · rw [hx, hy]
    exact .inr ⟨_, _, _, rfl, rfl, ⟨hw, hm.outside⟩⟩

theorem agrees_outside {ε α β : Type} {R : α → β → Prop} {f : σ → α × σ} {g : σ → β × σ}
    (h : ∀ s, (f s).2 = (g s).2 ∧ R (f s).1 (g s).1) :
    Agrees (ε := ε) (SameMachine base base') (outside f) (outside g) R := by
  intro m m' hm
  obtain ⟨hnext, hresult⟩ := h m.outside
  refine .inl ⟨_, _, _, _, rfl, rfl, ?_, ⟨hm.world, ?_⟩⟩
  · rw [← hm.outside]
    exact hresult
  · rw [← hm.outside]
    exact hnext

variable (hstore : SameStore os base base')
include hstore

theorem agrees_load (name : Str) :
    Agrees (SameMachine base base') (load os name)
      (load (os.answering uapi adapter) name) SameButSecrets :=
  agrees_onStore (agrees_loadFromName hstore name)

theorem agrees_storedConfig (name : Str) :
    Agrees (SameWorld base base') (storedConfig os.dpapi os.urlParse os.decoders 0 name)
      (storedConfig os.dpapi os.urlParse os.decoders 0 name)
      fun c c' => c = c' ∧ c.AtPositions := by
  refine (agrees_loadFromName hstore name).bind fun c c' h => ?_
  rw [if_pos rfl, if_pos rfl]
  exact .pure ⟨h.redact, redact_atPositions c⟩

theorem agrees_runtimeConfig (hanswers : SameAnswers os (os.answering uapi adapter)) (name : Str) :
    Agrees (SameMachine base base') (runtimeConfig os 0 name)
      (runtimeConfig (os.answering uapi adapter) 0 name) fun c c' => c = c' ∧ c.AtPositions := by
  refine (agrees_load hstore name).bind fun c c' h => ?_
  have hpeers : c.hasWebSocketPeers = c'.hasWebSocketPeers := by
    rw [← hasWebSocketPeers_withoutSecrets c, h, hasWebSocketPeers_withoutSecrets]
  have huapi : Agrees (SameMachine base base') (uapiRuntimeConfig os c)
      (uapiRuntimeConfig (os.answering uapi adapter) c') SameButSecrets := by
    rw [uapiRuntimeConfig, uapiRuntimeConfig, h.name]
    refine ((agrees_outside (hanswers.uapi c'.name)).bind fun _ _ hreport =>
      agrees_orThrow hreport).bind fun report report' hreport => ?_
    exact agrees_orThrow ((fromUAPI_same hreport h).mapError)
  have hdriver : Agrees (SameMachine base base') (driverRuntimeConfig os name c)
      (driverRuntimeConfig (os.answering uapi adapter) name c') SameButSecrets := by
    refine ((agrees_outside (hanswers.adapter name)).bind fun _ _ hrecords =>
      agrees_orThrow hrecords).bind fun r r' hrecords => ?_
    exact .pure (configOf_same hrecords h)
  have hbackend : Agrees (SameMachine base base') (backendConfig os name c)
      (backendConfig (os.answering uapi adapter) name c') SameButSecrets := by
    rw [backendConfig, backendConfig, hpeers]
    exact .ite (fun _ => huapi) fun _ => hdriver
  exact hbackend.bind fun d _ hconfig => .pure ⟨hconfig.redact, redact_atPositions d⟩

theorem agrees_intersecting {c c' : Config} (h : SameButSecrets c c')
    (tracked : List (Str × TunnelState)) (tt : List Str) :
    Agrees (SameMachine base base') (intersecting os c tracked tt)
      (intersecting (os.answering uapi adapter) c' tracked tt) Eq := by
  induction tracked generalizing tt with
  | nil => exact .pure rfl
  | cons t rest ih =>
    obtain ⟨t, state⟩ := t
    have hload : Agrees (SameMachine base base') (attempt (load os t))
        (attempt (load (os.answering uapi adapter) t)) (Alike SameButSecrets) :=
      (agrees_load hstore t).attempt (fun _ _ h => h) fun _ => rfl
    refine hload.bind fun r r' hr => ?_
    obtain ⟨e, rfl, rfl⟩ | ⟨c₂, c₂', rfl, rfl, hsame⟩ := hr.cases
    · exact ih tt
    · have hintersects : c.intersectsWith c₂ = c'.intersectsWith c₂' := by
        rw [← intersectsWith_withoutSecrets, h, hsame, intersectsWith_withoutSecrets]
      dsimp only
      rw [hintersects]
      exact .ite (fun _ => ih tt) fun _ => .ite (fun _ => .pure rfl) fun _ => ih _

theorem agrees_start (name : Str) :
    Agrees (SameMachine base base') (start os name)
      (start (os.answering uapi adapter) name) Eq := by
  refine (agrees_load hstore name).bind fun c c' h => ?_
  refine (agrees_outside (R := Eq) fun _ => ⟨rfl, rfl⟩).bind fun tracked tracked' htracked => ?_
  rw [← htracked]
  refine (agrees_intersecting hstore h tracked []).bind fun found found' hfound => ?_
  rw [← hfound]
  refine .ite (fun _ => .throw _) fun _ => ?_
  refine (agrees_onStore (agrees_configPath h)).bind fun path path' hpath => ?_
  rw [← hpath]
  refine (agrees_outside (R := Eq) fun _ => ⟨rfl, rfl⟩).bind fun err err' herr => ?_
  rw [← herr]
  cases err with
  | none => exact .pure rfl
  | some e => exact .throw e

omit hstore in
theorem agrees_pointer {α : Type} {P : α → Prop} {x y : Serve σ α}
    (h : Agrees (SameMachine base base') x y fun a b => a = b ∧ P a) :
    Agrees (SameMachine base base') (pointer x) (pointer y)
      fun r r' => r = r' ∧ ∀ a ∈ r.1, P a := by
  intro m m' hm
  rw [pointer, pointer]
  obtain ⟨a, n, b, n', hx, hy, ⟨rfl, ha⟩, hn⟩ | ⟨e, n, n', hx, hy, hn⟩ := h m m' hm
  · rw [hx, hy]
    refine .inl ⟨_, n, _, n', rfl, rfl, ⟨rfl, fun b hb => ?_⟩, hn⟩
    exact Option.some.inj hb ▸ ha
  · rw [hx, hy]
    exact .inl ⟨_, n, _, n', rfl, rfl, ⟨rfl, fun b hb => nomatch hb⟩, hn⟩

omit hstore in
theorem agrees_value {α : Type} (zero : α) {x y : Serve σ α}
    (h : Agrees (SameMachine base base') x y Eq) :
    Agrees (SameMachine base base') (value zero x) (value zero y) Eq := by
  refine (agrees_pointer h.and_true).bind fun r r' hr => .pure ?_
  rw [hr.1]

omit hstore in
theorem agrees_error {x y : Serve σ Unit} (h : Agrees (SameMachine base base') x y Eq) :
    Agrees (SameMachine base base') (error x) (error y) Eq :=
  (agrees_pointer h.and_true).bind fun _ _ hr => .pure (congrArg Prod.snd hr.1)

theorem agrees_serve (hanswers : SameAnswers os (os.answering uapi adapter)) (c : Call) :
    Agrees (SameMachine base base') (serve os 0 c) (serve (os.answering uapi adapter) 0 c)
      fun a a' => a = a' ∧ AtPositions c a := by
  cases c with
  | storedConfig name => exact agrees_pointer (agrees_onStore (agrees_storedConfig hstore name))
  | runtimeConfig name => exact agrees_pointer (agrees_runtimeConfig hstore hanswers name)
  | start name => exact (agrees_error (agrees_start hstore name)).and_true
  | stop name =>
    refine (agrees_error ((agrees_outside (R := Eq) fun _ => ⟨rfl, rfl⟩).bind fun u u' hu =>
      ?_)).and_true
    rw [← hu]
    exact agrees_onStore (agrees_stop hstore u name)
  | delete name => exact (agrees_error (.throw _)).and_true
  | create config =>
    have hcreate : Agrees (SameMachine base base') (create os 0 config)
        (create (os.answering uapi adapter) 0 config) Eq :=
      (agrees_onStore (R := Eq) (.throw _)).bind fun _ _ h => .pure (congrArg Tunnel.mk h)
    exact (agrees_pointer hcreate.and_true).mono fun _ _ h => ⟨h.1, trivial⟩
  | tunnels =>
    exact (agrees_value [] ((agrees_onStore (agrees_listConfigNames hstore)).bind fun _ _ h =>
      .pure (congrArg _ h))).and_true
  | quit stopTunnelsOnQuit => exact (agrees_value false (.throw _)).and_true
  | update => exact .pure ⟨rfl, trivial⟩
  | waitForStop name => exact agrees_outside fun _ => ⟨rfl, rfl, trivial⟩
  | state name => exact agrees_outside fun _ => ⟨rfl, rfl, trivial⟩
  | globalState => exact agrees_outside fun _ => ⟨rfl, rfl, trivial⟩
  | updateState => exact agrees_outside fun _ => ⟨rfl, rfl, trivial⟩

end

def keptFiles (key : Key) : Files := Tree.put toLower (fun _ => []) configurationsDirectory
  ⟨str "wg0" ++ configFileSuffix,
    labelled.protect (str "[Interface]\nPrivateKey=" ++ key.string) (str "wg0")⟩

def reporting (key : Key) : Outside Unit where
  dpapi := labelled
  urlParse _ := none
  decoders := []
  uninstallTunnel _ s := (.done, s)
  replace _ _ s := (none, s)
  waitForStop _ s := (none, s)
  state _ s := ((.started, none), s)
  globalState s := (.started, s)
  trackedTunnels _ := []
  uapi _ s := (.error [], s)
  adapter _ s :=
    (.ok (Driver.interfaceOf { name := [], interface := { privateKey := key } }, []), s)
  haveQuit s := (false, s)
  quitManagers s := ((), s)
  updateState s := (.unknown, s)
  downloadVerifyAndExecute s := ((), s)
  storeErrorText _ := []
  uapiErrorText _ := []

theorem keptFiles_same : SameStore (reporting (positionKey 1)) (keptFiles (positionKey 1))
    (keptFiles (positionKey 2)) := by
  refine ⟨?_, fun name => ?_⟩
  · rw [keptFiles, keptFiles, Tree.entries, Tree.entries, Tree.put, Tree.put, Function.update_self,
      Function.update_self]
    rfl
  · by_cases hname : toLower (name ++ configFileSuffix) = toLower (str "wg0" ++ configFileSuffix)
    · rw [keptFiles, keptFiles, Tree.read_put_same hname, Tree.read_put_same hname]
      refine .some ?_
      simp only [configIn, plainText, reporting, labelled.unprotect_protect]
      by_cases heq : str "wg0" = name
      · subst heq
        rw [if_pos rfl, if_pos rfl]
        with_unfolding_all exact rfl
      · rw [if_neg heq, if_neg heq]
        exact rfl
    · rw [keptFiles, keptFiles, Tree.read_put_other hname, Tree.read_put_other hname]
      exact .none

end WireGuardWindows.Manager.ManagerService
