import Sqns.Lib.Calls
import Sqns.Lib.FileTree
import Sqns.Canonical
import Sqns.EndpointText
import Sqns.Publisher

set_option autoImplicit false

namespace Sqns.KeyFiles

open Calls FileTree Text Trace

abbrev Path := FileTree.Path Str
abbrev Disk := FileTree.Disk Str UInt8
abbrev Call := FileTree.Call Str UInt8

-- What a command does before it speaks to a server.
abbrev Command (α : Type) := Program Call Call.Reply Error α

abbrev Seed := List.Vector UInt8 32

def errnoText : Errno → String
  | .notFound => "No such file or directory (os error 2)"
  | .notDirectory => "Not a directory (os error 20)"
  | .isDirectory => "Is a directory (os error 21)"
  | .alreadyThere => "File exists (os error 17)"
  | .other message => message

def names : Path → List Str
  | .here => []
  | .child dir name => names dir ++ [name]

def root : Path := .child .here []

def display (p : Path) : Str := if p = root then ['/'] else ['/'].intercalate (names p)

def pathOf (text : Str) : Path :=
  match text.splitOn '/' with
  | [] => .here
  | first :: rest => (rest.filter (fun name => !name.isEmpty)).foldl .child (if text.isEmpty then .here else .child .here first)

section Keys

variable (codec : KeyCodec) (derive : Seed → SigningKey)

def hexEncode (bytes : Bytes) : Str := bytes.flatMap (fun b => [Nat.digitChar (b.toNat / 16), Nat.digitChar (b.toNat % 16)])

def io {α : Type} (r : Except Errno α) : Command α := .ofExcept (r.mapError (fun e => .io (errnoText e)))

def metadata (path : Path) : Command (Except Errno Nat) := .ask (FileTree.Call.metadata path)
def readBytes (path : Path) : Command (Except Errno Bytes) := .ask (FileTree.Call.read path)
def create (path : Path) : Command (Except Errno Unit) := .ask (FileTree.Call.create path)
def writeAll (path : Path) (bytes : Bytes) : Command (Except Errno Unit) := .ask (FileTree.Call.write path bytes)
def setPermissions (path : Path) (bits : Nat) : Command (Except Errno Unit) := .ask (FileTree.Call.setPermissions path bits)
def createDir (path : Path) : Command (Except Errno Unit) := .ask (FileTree.Call.createDir path)

-- The `?` operator.
def attempt {α : Type} (p : Command (Except Errno α)) : Command α := p >>= io

-- `Path::exists` takes every failure for an absence.
def pathExists (path : Path) : Command Bool := do
  let found ← metadata path
  pure (match found with
    | .ok _ => true
    | .error _ => false)

def createDirAll : Path → Command Unit
  | .here => pure ()
  | .child dir name => do
      createDirAll dir
      attempt (createDir (.child dir name))

def writeFile (path : Path) (bytes : Bytes) : Command Unit := do
  attempt (create path)
  attempt (writeAll path bytes)

def whenever (c : Bool) (p : Command Unit) : Command Unit := if c then p else pure ()

def ensureSqnsDir (home : Path) : Command Path := do
  let there ← pathExists home
  whenever (!there) (createDirAll home)
  attempt (setPermissions home 0o700)
  pure home

def pathOrDefault (home : Path) (given : Option Path) (name : Str) : Command Path :=
  match given with
  | some path => pure path
  | none => do pure (.child (← ensureSqnsDir home) name)

def secretFromHex (seedHex : Str) : Except Error SigningKey :=
  match codec.hexDecode (trim isWhitespace seedHex) with
  | .error e => .error (.key s!"private seed is not valid hex: {e}")
  | .ok raw =>
      if long : raw.length = 32 then .ok (derive ⟨raw, long⟩)
      else .error (.key s!"private seed must be 32 bytes (64 hex chars), got {raw.length}")

def octal (mode : Nat) : String := String.ofList (Nat.toDigits 8 mode)

def loadSecretFile (path : Path) : Command SigningKey := do
  let mode ← attempt (metadata path)
  if mode &&& 0o077 ≠ 0 then
    .fail (.key (s!"{String.ofList (display path)} is group/world accessible (mode {octal (mode &&& 0o777)}); " ++
      s!"run: chmod 600 {String.ofList (display path)}"))
  else do
    let bytes ← attempt (readBytes path)
    match String.fromUTF8? ⟨bytes.toArray⟩ with
    | none => .fail (.io "stream did not contain valid UTF-8")
    | some text => .ofExcept (secretFromHex codec derive (trim isWhitespace text.toList))

def secretText (seed : Seed) : Bytes := utf8Bytes (String.ofList (hexEncode seed.toList ++ ['\n']))

def saveSecretFile (path : Path) (seed : Seed) : Command Unit := do
  whenever (path.parent ≠ .here) (createDirAll path.parent)
  writeFile path (secretText seed)
  attempt (setPermissions path 0o600)

def loadKey (path : Path) (hint : String) : Command SigningKey := do
  if !(← pathExists path) then .fail (.key s!"no key at {String.ofList (display path)} — create one with: {hint}")
  else loadSecretFile codec derive path

-- The seed is what `generate` draws.
def keygen (out : Path) (force : Bool) (seed : Seed) : Command Unit := do
  if (← pathExists out) && !force then
    .fail (.key s!"{String.ofList (display out)} already exists; pass --force to overwrite it")
  else saveSecretFile out seed

def readPubkey (value : Str) : Command PubKey :=
  match PubKey.fromStr codec value with
  | .ok key => pure key
  | .error _ => do
      if !(← pathExists (pathOf value)) then
        .fail (.key s!"'{String.ofList value}' is neither a base58 public key nor an existing file")
      else do
        let signingKey ← loadSecretFile codec derive (pathOf value)
        pure signingKey.publicKey

def maxDelegationLifetime : Nat := 31536000

def notAfter (days : UInt64) (neverExpires_ : Bool) (now : Nat) : Except Error UInt64 :=
  if neverExpires_ then .ok neverExpires
  else
    let lifetime := min (days.toNat * 86400) u64Max
    if lifetime = 0 ∨ maxDelegationLifetime < lifetime then
      .error (.delegation s!"delegation must last 1..={maxDelegationLifetime / 86400} days, or pass --never-expires")
    else .ok (UInt64.ofNat (now + lifetime))

def delegate (identityPath : Path) (serviceKey : Str) (days : UInt64) (neverExpires_ : Bool) (out : Path) (now : Nat) :
    Command Unit := do
  let identity ← loadKey codec derive identityPath "sqns keygen --identity"
  let servicePub ← readPubkey codec derive serviceKey
  if servicePub = identity.publicKey then
    .fail (.delegation "a key cannot be its own identity: generate a separate service key")
  else do
    let until_ ← .ofExcept (notAfter days neverExpires_ now)
    writeFile out (DelegationFile.encode ⟨servicePub, Delegation.issue identity servicePub until_⟩)

def loadDelegation (prim : Primitives) (path : Path) : Command DelegationFile := do
  match ← readBytes path with
  | .error _ => .fail (.delegation s!"no delegation at {String.ofList (display path)} — create one with: sqns delegate")
  | .ok bytes => .ofExcept (DelegationFile.decode prim bytes)

def newPublisher {prim : Primitives} (serviceKey : SigningKey) (delegation : Delegation) (endpoints : List Endpoint)
    (ttl : UInt32) (now : UInt64) : Except Error (Publisher prim) :=
  match granted : delegation.verify prim serviceKey.publicKey with
  | .ok () => .ok ⟨serviceKey, delegation, endpoints, ttl, now, granted⟩
  | .error e => .error e

end Keys

def identityKeyName : Str := "identity.key".toList
def serviceKeyName : Str := "service.key".toList
def serviceDelegationName : Str := "service.deleg".toList
def userKeyName : Str := "sqnsd.key".toList
def systemKey : Path := pathOf "/etc/sqns/sqnsd.key".toList

-- The subcommands of `sqns` that read or write a key, and `sqnsd`. A seed is what
-- the command would draw, and a time what its clock reads.
inductive Invocation where
  | keygen (out : Option Path) (identity force : Bool) (seed : Seed)
  | delegate (identityKey : Option Path) (serviceKey : Option Str) (days : UInt64) (neverExpires_ : Bool) (out : Option Path)
      (now : Nat)
  | publish (keyFile delegation : Option Path) (endpoints : List Str) (ttl : UInt32) (now : UInt64)
  | withdraw (keyFile delegation : Option Path) (ttl : UInt32) (now : UInt64)
  | supersede (oldKey newKey : Str) (identityKey : Option Path)
  | revoke (key : Option Str) (all : Bool) (identityKey : Option Path)
  | identity (key : Str)
  | serverKeygen (out : Path) (force : Bool) (seed : Seed)
  | serve (asRoot : Bool) (configured keyFile : Option Path) (seed : Seed)

section Commands

variable (prim : Primitives) (codec : KeyCodec) (derive : Seed → SigningKey) (home : Path)

def runKeygen (out : Option Path) (identity force : Bool) (seed : Seed) : Command Unit := do
  let path ← pathOrDefault home out (if identity then identityKeyName else serviceKeyName)
  keygen path force seed

def serviceText (serviceKey : Option Str) : Command Str :=
  match serviceKey with
  | some value => pure value
  | none => do pure (display (← pathOrDefault home none serviceKeyName))

def runDelegate (identityKey : Option Path) (serviceKey : Option Str) (days : UInt64) (neverExpires_ : Bool) (out : Option Path)
    (now : Nat) : Command Unit := do
  let identityPath ← pathOrDefault home identityKey identityKeyName
  let service ← serviceText home serviceKey
  let outPath ← pathOrDefault home out serviceDelegationName
  delegate codec derive identityPath service days neverExpires_ outPath now

def runPublish (keyFile delegation : Option Path) (endpoints : List Str) (ttl : UInt32) (now : UInt64) :
    Command (Publisher prim) := do
  let keyPath ← pathOrDefault home keyFile serviceKeyName
  let signingKey ← loadKey codec derive keyPath "sqns keygen"
  let parsed ← .ofExcept (endpoints.mapM Endpoint.fromStr)
  let file ← loadDelegation prim (← pathOrDefault home delegation serviceDelegationName)
  .ofExcept (newPublisher signingKey file.delegation parsed ttl now)

def runWithdraw (keyFile delegation : Option Path) (ttl : UInt32) (now : UInt64) : Command (Publisher prim) := do
  let signingKey ← loadKey codec derive (← pathOrDefault home keyFile serviceKeyName) "sqns keygen"
  let file ← loadDelegation prim (← pathOrDefault home delegation serviceDelegationName)
  .ofExcept (newPublisher signingKey file.delegation [] ttl now)

def runSupersede (oldKey newKey : Str) (identityKey : Option Path) : Command (PubKey × PubKey × SigningKey) := do
  let identityPath ← pathOrDefault home identityKey identityKeyName
  let old ← readPubkey codec derive oldKey
  let new ← readPubkey codec derive newKey
  let identity ← loadKey codec derive identityPath "sqns keygen --identity"
  pure (old, new, identity)

-- With `--all` it is every key the identity has issued.
def runRevoke (key : Option Str) (all : Bool) (identityKey : Option Path) : Command (SigningKey × Option PubKey) := do
  let identityPath ← pathOrDefault home identityKey identityKeyName
  let identity ← loadKey codec derive identityPath "sqns keygen --identity"
  if all then pure (identity, none)
  else
    match key with
    | none => .fail (.key "pass --key <service key>, or --all with --identity-key")
    | some value => do pure (identity, some (← readPubkey codec derive value))

def loadOrCreateKey (path : Path) (explicit_ : Bool) (seed : Seed) : Command SigningKey := do
  if ← pathExists path then loadSecretFile codec derive path
  else if explicit_ then
    .fail (.key (s!"no key at {String.ofList (display path)} — generate one with: " ++
      s!"sqnsd keygen --out {String.ofList (display path)}"))
  else do
    saveSecretFile path seed
    pure (derive seed)

-- Without a configuration file the directory is made even where the key is not in it.
def serverKeyPath (asRoot : Bool) (configured : Option Path) : Command Path :=
  match configured with
  | some path => pure path
  | none => if asRoot then pure systemKey else do pure (.child (← ensureSqnsDir home) userKeyName)

def runServe (asRoot : Bool) (configured keyFile : Option Path) (seed : Seed) : Command SigningKey := do
  let keyPath ← serverKeyPath home asRoot configured
  loadOrCreateKey codec derive (keyFile.getD keyPath) keyFile.isSome seed

def Invocation.Result : Invocation → Type
  | .keygen _ _ _ _ => Unit
  | .delegate _ _ _ _ _ _ => Unit
  | .publish _ _ _ _ _ => Publisher prim
  | .withdraw _ _ _ _ => Publisher prim
  | .supersede _ _ _ => PubKey × PubKey × SigningKey
  | .revoke _ _ _ => SigningKey × Option PubKey
  | .identity _ => PubKey
  | .serverKeygen _ _ _ => Unit
  | .serve _ _ _ _ => SigningKey

def Invocation.program : (job : Invocation) → Command (job.Result prim)
  | .keygen out asIdentity force seed => runKeygen home out asIdentity force seed
  | .delegate identityKey serviceKey days neverExpires_ out now =>
      runDelegate codec derive home identityKey serviceKey days neverExpires_ out now
  | .publish keyFile delegation endpoints ttl now => runPublish prim codec derive home keyFile delegation endpoints ttl now
  | .withdraw keyFile delegation ttl now => runWithdraw prim codec derive home keyFile delegation ttl now
  | .supersede oldKey newKey identityKey => runSupersede codec derive home oldKey newKey identityKey
  | .revoke key all identityKey => runRevoke codec derive home key all identityKey
  | .identity key => readPubkey codec derive key
  | .serverKeygen out force seed => KeyFiles.keygen out force seed
  | .serve asRoot configured keyFile seed => runServe codec derive home asRoot configured keyFile seed

end Commands

section Guarding

variable (keys : Path → Prop) (umask : Nat) (home : Path) (secret : Bool)

-- The paths that are looked after: what goes on elsewhere is nobody's business.
def Spared (p : Path) : Prop := p = home ∨ keys p

theorem home_spared : Spared keys home home := .inl rfl

-- A key file of those looked after is its owner's alone.
def Hidden (path : Path) (t : Disk) : Prop := keys path → t.Private path

-- What every call keeps to. Where the command has a key of its own to put under
-- `home`, others are kept out of there by the time it writes.
def Guarded (c : Call) (d after : Disk) : Prop :=
  Disk.Tightens (Spared keys home) d after ∧
    (secret = true → ∀ p bytes, c = .write p bytes → after.Closed home ∧ home ∈ p.parent.along)

def Ok {α : Type} (Q : α → Disk → Prop) (r : Except Error α) (d : Disk) : Prop := ∀ a, r = .ok a → Q a d

def Keeps {α : Type} (Q : α → Disk → Prop) (p : Command α) (d : Disk) : Prop :=
  Meets (FileTree.Call.Performs umask) (Disk.Tightens (Spared keys home)) (Guarded keys home secret) (Ok Q) p d

variable {keys umask home secret} {α β : Type}

theorem keeps_bind {Q : α → Disk → Prop} {R : β → Disk → Prop} {p : Command α} {next : α → Command β} {d : Disk}
    (first : Keeps keys umask home secret Q p d) (onward : ∀ a t, Q a t → Keeps keys umask home secret R (next a) t) :
    Keeps keys umask home secret R (p >>= next) d :=
  Meets.bind (Disk.tightens_still _) first (fun a t ended => onward a t (ended a rfl)) (fun e t _ a failed => by cases failed)

theorem keeps_frame {Q : α → Disk → Prop} {p : Command α} {d : Disk} (K : Disk → Prop)
    (stable : ∀ s t, Disk.Tightens (Spared keys home) s t → K s → K t) (holds : K d)
    (kept : Keeps keys umask home secret Q p d) :
    Keeps keys umask home secret (fun a t => Q a t ∧ K t) p d :=
  (Meets.frame K stable (fun _ s t promised => stable s t promised.1) holds kept).weaken
    (fun _ _ ended a same => ⟨ended.1 a same, ended.2⟩)

theorem hidden_later (path : Path) (d t : Disk) (moved : Disk.Tightens (Spared keys home) d t) (hidden : Hidden keys path d) :
    Hidden keys path t :=
  fun own => moved.kept path (.inr own) (hidden own)

-- A key file found private stays so for the rest of the command.
theorem keeps_private {p : Command α} {d : Disk} (path : Path) (hidden : Hidden keys path d)
    (rest : Keeps keys umask home secret (fun _ _ => True) p d) :
    Keeps keys umask home secret (fun _ t => Hidden keys path t) p d :=
  (keeps_frame (fun t => Hidden keys path t) (hidden_later path) hidden rest).weaken
    (fun _ _ ended a same => (ended a same).2)

theorem keeps_pure {Q : α → Disk → Prop} {a : α} {d : Disk} (result : ∀ t, Disk.Tightens (Spared keys home) d t → Q a t) :
    Keeps keys umask home secret Q (pure a) d := by
  intro t moved b same
  cases same
  exact result t moved

theorem keeps_fail {Q : α → Disk → Prop} {e : Error} {d : Disk} : Keeps keys umask home secret Q (.fail e) d := by
  intro t moved a failed
  cases failed

theorem keeps_except {Q : α → Disk → Prop} {r : Except Error α} {d : Disk}
    (result : ∀ a, r = .ok a → ∀ t, Disk.Tightens (Spared keys home) d t → Q a t) :
    Keeps keys umask home secret Q (.ofExcept r) d :=
  Meets.ofExcept (fun t moved a same => result a same t moved)

theorem keeps_io {Q : α → Disk → Prop} {r : Except Errno α} {d : Disk}
    (result : ∀ a, r = .ok a → ∀ t, Disk.Tightens (Spared keys home) d t → Q a t) :
    Keeps keys umask home secret Q (io r) d := by
  refine keeps_except ?_
  intro a same
  cases r with
  | error e => cases same
  | ok b =>
      cases same
      exact result a rfl

theorem keeps_ask {c : Call} {Q : c.Reply → Disk → Prop} {d : Disk}
    (strict : ∀ p bits, c = .setPermissions p bits → ¬ Shared bits)
    (shut : secret = true → ∀ p bytes, c = .write p bytes → d.Closed home ∧ home ∈ p.parent.along)
    (answered : ∀ t a after, Disk.Tightens (Spared keys home) d t → c.Performs umask t a after →
      ∀ u, Disk.Tightens (Spared keys home) after u → Q a u) :
    Keeps keys umask home secret Q (.ask c) d := by
  refine Meets.ask ?_
  intro t moved a after performs
  have tight := Disk.performs_tightens umask c t after a performs strict (Spared keys home)
  refine ⟨⟨tight, ?_⟩, ?_⟩
  · intro own p bytes same
    obtain ⟨closed, on⟩ := shut own p bytes same
    have spared := home_spared keys home
    exact ⟨tight.closed home spared (moved.closed home spared closed), on⟩
  · intro u later b same
    cases same
    exact answered t a after moved performs u later

-- `home` has been made the caller's own, if it is a directory at all.
def Shut (home : Path) (d : Disk) : Prop := d.Closed home ∨ d.isFile home = true

theorem shut_later (d t : Disk) (moved : Disk.Tightens (Spared keys home) d t) (shut : Shut home d) : Shut home t := by
  rcases shut with closed | file
  · exact .inl (moved.closed home (home_spared keys home) closed)
  · exact .inr (moved.files home (home_spared keys home) file)

theorem walked_closed (d : Disk) (p : Path) (walks : d.walks p = true) (on : home ∈ p.along) (shut : Shut home d) :
    d.Closed home := by
  have directory : d.isDirectory home = true := List.all_eq_true.mp walks home on
  rcases shut with closed | file
  · exact closed
  · obtain ⟨entry, held, isDirectory⟩ := (Disk.is_directory_iff d home).mp directory
    obtain ⟨other, again, isFile⟩ := (Disk.is_file_iff d home).mp file
    cases held.symm.trans again
    cases entry with
    | file => cases isDirectory
    | directory => cases isFile

section Calls

variable (d : Disk) (path : Path)

theorem keeps_exists : Keeps keys umask home secret (fun _ _ => True) (pathExists path) d := by
  refine keeps_bind (Q := fun _ _ => True) ?_ (fun _ _ _ => keeps_pure (fun _ _ => trivial))
  exact keeps_ask (by simp) (by simp) (fun _ _ _ _ _ _ _ => trivial)

theorem keeps_attempt {Q : α → Disk → Prop} (p : Command (Except Errno α))
    (stable : ∀ a s t, Disk.Tightens (Spared keys home) s t → Q a s → Q a t)
    (kept : Keeps keys umask home secret (fun r t => ∀ a, r = .ok a → Q a t) p d) :
    Keeps keys umask home secret Q (attempt p) d :=
  keeps_bind kept (fun _ t ended => keeps_io (fun a ok u moved => stable a t u moved (ended a ok)))

theorem keeps_create_dir_all : Keeps keys umask home secret (fun _ _ => True) (createDirAll path) d := by
  induction path generalizing d with
  | here => exact keeps_pure (fun _ _ => trivial)
  | child dir name ih =>
      refine keeps_bind (ih d) ?_
      intro _ t _
      exact keeps_attempt t _ (fun _ _ _ _ _ => trivial) (keeps_ask (by simp) (by simp) (fun _ _ _ _ _ _ _ _ _ => trivial))

theorem permissions_kept (bits : Nat) (strict : ¬ Shared bits) (Q : Disk → Prop)
    (set : ∀ t after entry, Disk.Tightens (Spared keys home) d t → t path = some entry →
      after path = some (entry.setMode bits) → Q after)
    (stable : ∀ t u, Disk.Tightens (Spared keys home) t u → Q t → Q u) :
    Keeps keys umask home secret (fun _ t => Q t) (attempt (setPermissions path bits)) d := by
  refine keeps_attempt d _ (fun _ => stable) (keeps_ask ?_ (by simp) ?_)
  · intro p other same
    cases same
    exact strict
  · intro t a after moved performs u later _ ok
    subst ok
    obtain ⟨entry, held, there⟩ := FileTree.Call.permissions_ok umask t after path bits performs
    exact stable after u later (set t after entry moved held there)

theorem keeps_whenever (c : Bool) (p : Command Unit) (kept : Keeps keys umask home secret (fun _ _ => True) p d) :
    Keeps keys umask home secret (fun _ _ => True) (whenever c p) d := by
  cases c with
  | true => exact kept
  | false => exact keeps_pure (fun _ _ => trivial)

theorem keeps_ensure :
    Keeps keys umask home secret (fun dir t => dir = home ∧ Shut home t) (ensureSqnsDir home) d := by
  refine keeps_bind (keeps_exists d home) ?_
  intro there t _
  refine keeps_bind (keeps_whenever t _ _ (keeps_create_dir_all t home)) ?_
  intro _ u _
  refine keeps_bind (permissions_kept u home 0o700 (by decide) (Shut home) ?_ shut_later) ?_
  · intro t after entry _ _ there
    cases entry with
    | file mode contents => exact .inr ((Disk.is_file_iff after home).mpr ⟨_, there, rfl⟩)
    | directory mode => exact .inl ⟨_, there, rfl, by simp [Entry.setMode, Entry.mode, Shared]⟩
  · intro _ v shut
    exact keeps_pure (fun w moved => ⟨rfl, shut_later v w moved shut⟩)

theorem keeps_path_or_default (given : Option Path) (name : Str) :
    Keeps keys umask home secret (fun p t => p = given.getD (.child home name) ∧ (given = none → Shut home t))
      (pathOrDefault home given name) d := by
  cases given with
  | some p => exact keeps_pure (fun _ _ => ⟨rfl, fun absent => by cases absent⟩)
  | none =>
      refine keeps_bind (keeps_ensure d) ?_
      intro dir t ensured
      refine keeps_pure ?_
      intro u moved
      rw [ensured.1]
      exact ⟨rfl, fun _ => shut_later t u moved ensured.2⟩

theorem keeps_write_file (bytes : Bytes) (shut : secret = true → Shut home d ∧ home ∈ path.parent.along) :
    Keeps keys umask home secret (fun _ t => keys path → t.isFile path = true) (writeFile path bytes) d := by
  have spared := home_spared keys home
  have opened : Keeps keys umask home secret (fun _ t => (keys path → t.isFile path = true) ∧ (secret = true → t.Closed home))
    (attempt (create path)) d := by
    refine keeps_attempt d _ ?_ (keeps_ask (by simp) (by simp) ?_)
    · intro _ s t moved made
      exact ⟨fun own => moved.files path (.inr own) (made.1 own), fun own => moved.closed home spared (made.2 own)⟩
    · intro t a after moved performs u later _ ok
      subst ok
      obtain ⟨walks, file⟩ := FileTree.Call.create_ok umask t after path performs
      refine ⟨fun own => later.files path (.inr own) file, ?_⟩
      intro own
      have closed := walked_closed t path.parent walks (shut own).2 (shut_later d t moved (shut own).1)
      have tight := Disk.performs_tightens umask _ t after _ performs (by simp) (Spared keys home)
      exact later.closed home spared (tight.closed home spared closed)
  refine keeps_bind opened ?_
  intro _ t made
  refine keeps_attempt t _ (fun _ s u moved file own => moved.files path (.inr own) (file own)) (keeps_ask (by simp) ?_ ?_)
  · intro own p bytes same
    cases same
    exact ⟨made.2 own, (shut own).2⟩
  · intro u a after moved performs v later _ _ own
    have tight := Disk.performs_tightens umask _ u after a performs (by simp) (Spared keys home)
    exact later.files path (.inr own) (tight.files path (.inr own) (moved.files path (.inr own) (made.1 own)))

theorem keeps_save (seed : Seed) (shut : secret = true → Shut home d ∧ home ∈ path.parent.along) :
    Keeps keys umask home secret (fun _ t => Hidden keys path t) (saveSecretFile path seed) d := by
  have stable : ∀ s t, Disk.Tightens (Spared keys home) s t → (secret = true → Shut home s ∧ home ∈ path.parent.along) →
      secret = true → Shut home t ∧ home ∈ path.parent.along := by
    intro s t moved before own
    exact ⟨shut_later s t moved (before own).1, (before own).2⟩
  refine keeps_bind (keeps_frame _ stable shut (keeps_whenever d _ _ (keeps_create_dir_all d path.parent))) ?_
  intro _ t ready
  refine keeps_bind (keeps_write_file t path (secretText seed) ready.2) ?_
  intro _ u file
  refine permissions_kept u path 0o600 (by decide) (Hidden keys path) ?_ (hidden_later path)
  intro s after entry moved held there own
  obtain ⟨other, again, isFile⟩ := (Disk.is_file_iff s path).mp (moved.files path (.inr own) (file own))
  cases held.symm.trans again
  cases entry with
  | file mode contents => exact ⟨_, there, rfl, by simp [Entry.setMode, Entry.mode, Shared]⟩
  | directory mode => cases isFile

-- Between the look at the bits and the reading of the file nobody lets others in.
theorem keeps_load_secret (codec : KeyCodec) (derive : Seed → SigningKey) :
    Keeps keys umask home secret (fun _ t => Hidden keys path t) (loadSecretFile codec derive path) d := by
  have looked : Keeps keys umask home secret (fun mode t => ¬ Shared mode → keys path → t.Private path ∨ t.Closed path)
      (attempt (metadata path)) d := by
    refine keeps_attempt d _ ?_ (keeps_ask (by simp) (by simp) ?_)
    · intro mode s t moved before strict own
      exact (before strict own).imp (moved.kept path (.inr own)) (moved.closed path (.inr own))
    · intro t a after moved performs u later mode ok strict own
      subst ok
      obtain ⟨entry, held, same⟩ := FileTree.Call.metadata_ok umask t after path mode performs
      subst same
      have tight := Disk.tightens_joined _ _ _ _ (Disk.performs_tightens umask _ t after _ performs (by simp) _) later
      cases entry with
      | file bits contents => exact .inl (tight.kept path (.inr own) ⟨_, held, rfl, strict⟩)
      | directory bits => exact .inr (tight.closed path (.inr own) ⟨_, held, rfl, strict⟩)
  refine keeps_bind looked ?_
  intro mode t found
  by_cases shared : mode &&& 0o077 ≠ 0
  · rw [if_pos shared]
    exact keeps_fail
  · rw [if_neg shared]
    have loaded : Keeps keys umask home secret (fun _ u => Hidden keys path u) (attempt (readBytes path)) t := by
      refine keeps_attempt t _ (fun _ => hidden_later path) (keeps_ask (by simp) (by simp) ?_)
      intro u a after moved performs v later bytes ok own
      subst ok
      obtain ⟨bits, held⟩ := FileTree.Call.read_ok umask u after path bytes performs
      have tight := Disk.tightens_joined _ _ _ _ (Disk.performs_tightens umask _ u after _ performs (by simp) _) later
      rcases found shared own with hidden | closed
      · exact tight.kept path (.inr own) (moved.kept path (.inr own) hidden)
      · obtain ⟨entry, again, directory, _⟩ := moved.closed path (.inr own) closed
        cases held.symm.trans again
        cases directory
    refine keeps_bind loaded ?_
    intro bytes u hidden
    split
    · exact keeps_fail
    · exact keeps_except (fun _ _ v moved => hidden_later path u v moved hidden)

theorem keeps_load_key (codec : KeyCodec) (derive : Seed → SigningKey) (hint : String) :
    Keeps keys umask home secret (fun _ t => Hidden keys path t) (loadKey codec derive path hint) d := by
  refine keeps_bind (keeps_exists d path) ?_
  intro there t _
  cases there with
  | true => exact keeps_load_secret t path codec derive
  | false => exact keeps_fail

theorem keeps_keygen (force : Bool) (seed : Seed) (shut : secret = true → Shut home d ∧ home ∈ path.parent.along) :
    Keeps keys umask home secret (fun _ t => Hidden keys path t) (keygen path force seed) d := by
  refine keeps_bind (keeps_frame (fun t => secret = true → Shut home t ∧ home ∈ path.parent.along) ?_ shut
    (keeps_exists d path)) ?_
  · intro s t moved before own
    exact ⟨shut_later s t moved (before own).1, (before own).2⟩
  · intro there t ready
    by_cases taken : (there && !force) = true
    · rw [if_pos taken]
      exact keeps_fail
    · rw [if_neg taken]
      exact keeps_save t path seed ready.2

theorem keeps_read_pubkey (codec : KeyCodec) (derive : Seed → SigningKey) (value : Str) :
    Keeps keys umask home secret (fun _ _ => True) (readPubkey codec derive value) d := by
  unfold readPubkey
  split
  · exact keeps_pure (fun _ _ => trivial)
  · refine keeps_bind (keeps_exists d (pathOf value)) ?_
    intro there t _
    cases there with
    | false => exact keeps_fail
    | true => exact keeps_bind (keeps_load_secret t (pathOf value) codec derive) (fun _ _ _ => keeps_pure (fun _ _ => trivial))

theorem keeps_load_delegation (prim : Primitives) :
    Keeps keys umask home secret (fun _ _ => True) (loadDelegation prim path) d := by
  refine keeps_bind (Q := fun _ _ => True) (keeps_ask (by simp) (by simp) (fun _ _ _ _ _ _ _ => trivial)) ?_
  intro answer t _
  cases answer with
  | error e => exact keeps_fail
  | ok bytes => exact keeps_except (fun _ _ _ _ => trivial)

theorem keeps_load_or_create (codec : KeyCodec) (derive : Seed → SigningKey) (explicit_ : Bool) (seed : Seed)
    (shut : secret = true → Shut home d ∧ home ∈ path.parent.along) :
    Keeps keys umask home secret (fun _ t => Hidden keys path t) (loadOrCreateKey codec derive path explicit_ seed) d := by
  refine keeps_bind (keeps_frame (fun t => secret = true → Shut home t ∧ home ∈ path.parent.along) ?_ shut
    (keeps_exists d path)) ?_
  · intro s t moved before own
    exact ⟨shut_later s t moved (before own).1, (before own).2⟩
  · intro there t ready
    cases there with
    | true => exact keeps_load_secret t path codec derive
    | false =>
        cases explicit_ with
        | true => exact keeps_fail
        | false =>
            refine keeps_bind (keeps_save t path seed ready.2) ?_
            intro _ u hidden
            exact keeps_pure (fun v moved => hidden_later path u v moved hidden)

end Calls

end Guarding

def serverKeyFile (home : Path) (asRoot : Bool) : Option Path → Path
  | some path => path
  | none => if asRoot then systemKey else .child home userKeyName

namespace Invocation

-- The key file a command is to write or to go by.
def keyFile (home : Path) : Invocation → Option Path
  | keygen out asIdentity _ _ => some (out.getD (.child home (if asIdentity then identityKeyName else serviceKeyName)))
  | delegate identityKey _ _ _ _ _ => some (identityKey.getD (.child home identityKeyName))
  | publish keyFile _ _ _ _ => some (keyFile.getD (.child home serviceKeyName))
  | withdraw keyFile _ _ _ => some (keyFile.getD (.child home serviceKeyName))
  | supersede _ _ identityKey => some (identityKey.getD (.child home identityKeyName))
  | revoke _ _ identityKey => some (identityKey.getD (.child home identityKeyName))
  | identity _ => none
  | serverKeygen out _ _ => some out
  | serve asRoot configured keyFile _ => some (keyFile.getD (serverKeyFile home asRoot configured))

-- A key of its own goes to its place under `home`. The place of root's is not
-- there, but in a directory that is left as open as the umask has it.
def ownKey : Invocation → Bool
  | keygen none _ _ _ => true
  | serve false none none _ => true
  | _ => false

end Invocation

section Commands

variable (keys : Path → Prop) (umask : Nat) (home : Path) (prim : Primitives) (codec : KeyCodec) (derive : Seed → SigningKey)

theorem home_on_way (named : home ≠ .here) (name : Str) : home ∈ (FileTree.Path.child home name).parent.along := by
  cases home with
  | here => exact absurd rfl named
  | child dir last => exact FileTree.Path.mem_along_self dir last

theorem keeps_run_keygen (named : home ≠ .here) (secret : Bool) (out : Option Path) (isIdentity force : Bool) (seed : Seed)
    (own : secret = true → out = none) (d : Disk) :
    Keeps keys umask home secret (fun _ t => Hidden keys (out.getD
      (.child home (if isIdentity then identityKeyName else serviceKeyName))) t)
      (runKeygen home out isIdentity force seed) d := by
  refine keeps_bind (keeps_path_or_default d out _) ?_
  intro path t placed
  obtain ⟨rfl, shut⟩ := placed
  refine keeps_keygen t _ force seed ?_
  intro secretly
  have none_ := own secretly
  subst none_
  exact ⟨shut rfl, home_on_way home named _⟩

theorem keeps_write_grant (d : Disk) (path : Path) (bytes : Bytes) :
    Keeps keys umask home false (fun _ _ => True) (writeFile path bytes) d :=
  (keeps_write_file d path bytes (by simp)).weaken (fun _ _ _ _ _ => trivial)

theorem keeps_run_delegate (identityKey : Option Path) (serviceKey : Option Str) (days : UInt64) (neverExpires_ : Bool)
    (out : Option Path) (now : Nat) (d : Disk) :
    Keeps keys umask home false (fun _ t => Hidden keys (identityKey.getD (.child home identityKeyName)) t)
      (runDelegate codec derive home identityKey serviceKey days neverExpires_ out now) d := by
  refine keeps_bind (keeps_path_or_default d identityKey _) ?_
  intro identityPath t placed
  obtain ⟨rfl, _⟩ := placed
  have named : Keeps keys umask home false (fun _ _ => True) (serviceText home serviceKey) t := by
    cases serviceKey with
    | some value => exact keeps_pure (fun _ _ => trivial)
    | none => exact keeps_bind (keeps_path_or_default t none _) (fun _ _ _ => keeps_pure (fun _ _ => trivial))
  refine keeps_bind named ?_
  intro service u _
  refine keeps_bind (keeps_path_or_default u out _) ?_
  intro outPath v _
  refine keeps_bind (keeps_load_key v _ codec derive _) ?_
  intro signingKey w hidden
  refine keeps_private _ hidden (keeps_bind (keeps_read_pubkey w codec derive service) ?_)
  intro servicePub x _
  split
  · exact keeps_fail
  · refine keeps_bind (Q := fun _ _ => True) (keeps_except (fun _ _ _ _ => trivial)) ?_
    exact fun _ y _ => keeps_write_grant keys umask home y outPath _

theorem keeps_grant (delegation : Option Path) (signingKey : SigningKey) (endpoints : List Endpoint) (ttl : UInt32)
    (now : UInt64) (secret : Bool) (d : Disk) :
    Keeps keys umask home secret (fun _ _ => True)
      (do
        let file ← loadDelegation prim (← pathOrDefault home delegation serviceDelegationName)
        .ofExcept (newPublisher signingKey file.delegation endpoints ttl now : Except Error (Publisher prim))) d := by
  refine keeps_bind (keeps_path_or_default d delegation _) ?_
  intro path t _
  refine keeps_bind (keeps_load_delegation t path prim) ?_
  exact fun _ _ _ => keeps_except (fun _ _ _ _ => trivial)

theorem keeps_run_publish (keyFile delegation : Option Path) (endpoints : List Str) (ttl : UInt32) (now : UInt64) (d : Disk) :
    Keeps keys umask home false (fun _ t => Hidden keys (keyFile.getD (.child home serviceKeyName)) t)
      (runPublish prim codec derive home keyFile delegation endpoints ttl now) d := by
  refine keeps_bind (keeps_path_or_default d keyFile _) ?_
  intro keyPath t placed
  obtain ⟨rfl, _⟩ := placed
  refine keeps_bind (keeps_load_key t _ codec derive _) ?_
  intro signingKey u hidden
  refine keeps_private _ hidden (keeps_bind (Q := fun _ _ => True) (keeps_except (fun _ _ _ _ => trivial)) ?_)
  exact fun parsed v _ => keeps_grant keys umask home prim delegation signingKey parsed ttl now false v

theorem keeps_run_withdraw (keyFile delegation : Option Path) (ttl : UInt32) (now : UInt64) (d : Disk) :
    Keeps keys umask home false (fun _ t => Hidden keys (keyFile.getD (.child home serviceKeyName)) t)
      (runWithdraw prim codec derive home keyFile delegation ttl now) d := by
  refine keeps_bind (keeps_path_or_default d keyFile _) ?_
  intro keyPath t placed
  obtain ⟨rfl, _⟩ := placed
  refine keeps_bind (keeps_load_key t _ codec derive _) ?_
  intro signingKey u hidden
  exact keeps_private _ hidden (keeps_grant keys umask home prim delegation signingKey [] ttl now false u)

theorem keeps_run_supersede (oldKey newKey : Str) (identityKey : Option Path) (d : Disk) :
    Keeps keys umask home false (fun _ t => Hidden keys (identityKey.getD (.child home identityKeyName)) t)
      (runSupersede codec derive home oldKey newKey identityKey) d := by
  refine keeps_bind (keeps_path_or_default d identityKey _) ?_
  intro identityPath t placed
  obtain ⟨rfl, _⟩ := placed
  refine keeps_bind (keeps_read_pubkey t codec derive oldKey) ?_
  intro old u _
  refine keeps_bind (keeps_read_pubkey u codec derive newKey) ?_
  intro new v _
  refine keeps_bind (keeps_load_key v _ codec derive _) ?_
  intro signingKey w hidden
  exact keeps_pure (fun x moved => hidden_later _ _ x moved hidden)

theorem keeps_run_revoke (key : Option Str) (all : Bool) (identityKey : Option Path) (d : Disk) :
    Keeps keys umask home false (fun _ t => Hidden keys (identityKey.getD (.child home identityKeyName)) t)
      (runRevoke codec derive home key all identityKey) d := by
  refine keeps_bind (keeps_path_or_default d identityKey _) ?_
  intro identityPath t placed
  obtain ⟨rfl, _⟩ := placed
  refine keeps_bind (keeps_load_key t _ codec derive _) ?_
  intro signingKey u hidden
  cases all with
  | true => exact keeps_pure (fun x moved => hidden_later _ _ x moved hidden)
  | false =>
      cases key with
      | none => exact keeps_fail
      | some value =>
          refine keeps_private _ hidden (keeps_bind (keeps_read_pubkey u codec derive value) ?_)
          exact fun _ _ _ => keeps_pure (fun _ _ => trivial)

theorem keeps_run_serve (named : home ≠ .here) (secret : Bool) (asRoot : Bool) (configured keyFile : Option Path) (seed : Seed)
    (own : secret = true → asRoot = false ∧ configured = none ∧ keyFile = none) (d : Disk) :
    Keeps keys umask home secret (fun _ t => Hidden keys (keyFile.getD (serverKeyFile home asRoot configured)) t)
      (runServe codec derive home asRoot configured keyFile seed) d := by
  have placed : Keeps keys umask home secret (fun p t => p = serverKeyFile home asRoot configured ∧
      (secret = true → Shut home t)) (serverKeyPath home asRoot configured) d := by
    unfold serverKeyPath serverKeyFile
    cases configured with
    | some path => exact keeps_pure (fun _ _ => ⟨rfl, fun secretly => by cases (own secretly).2.1⟩)
    | none =>
        cases asRoot with
        | true => exact keeps_pure (fun _ _ => ⟨rfl, fun secretly => by cases (own secretly).1⟩)
        | false =>
            refine keeps_bind (keeps_ensure d) ?_
            intro dir t ensured
            refine keeps_pure ?_
            intro u moved
            rw [ensured.1]
            exact ⟨rfl, fun _ => shut_later t u moved ensured.2⟩
  refine keeps_bind placed ?_
  intro keyPath t found
  obtain ⟨rfl, shut⟩ := found
  refine keeps_load_or_create t _ codec derive _ seed ?_
  intro secretly
  obtain ⟨rfl, rfl, rfl⟩ := own secretly
  exact ⟨shut secretly, home_on_way home named _⟩

theorem keeps_file {α : Type} {secret : Bool} {p : Command α} {d : Disk} (path : Path)
    (kept : Keeps keys umask home secret (fun _ t => Hidden keys path t) p d) :
    Keeps keys umask home secret (fun _ t => ∀ q, some path = some q → Hidden keys q t) p d := by
  refine kept.weaken ?_
  intro _ t ended a same q own
  cases own
  exact ended a same

theorem invocation_keeps (named : home ≠ .here) (job : Invocation) (d : Disk) :
    Keeps keys umask home job.ownKey (fun _ t => ∀ p, job.keyFile home = some p → Hidden keys p t)
      (job.program prim codec derive home) d := by
  cases job with
  | keygen out isIdentity force seed =>
      refine keeps_file keys umask home _ (keeps_run_keygen keys umask home named _ out isIdentity force seed ?_ d)
      intro own
      cases out with
      | none => rfl
      | some path => cases own
  | delegate identityKey serviceKey days neverExpires_ out now =>
      exact keeps_file keys umask home _ (keeps_run_delegate keys umask home codec derive identityKey serviceKey
        days neverExpires_
        out now d)
  | publish keyFile delegation endpoints ttl now =>
      exact keeps_file keys umask home _ (keeps_run_publish keys umask home prim codec derive keyFile delegation endpoints
        ttl now d)
  | withdraw keyFile delegation ttl now =>
      exact keeps_file keys umask home _ (keeps_run_withdraw keys umask home prim codec derive keyFile delegation ttl now d)
  | supersede oldKey newKey identityKey =>
      exact keeps_file keys umask home _ (keeps_run_supersede keys umask home codec derive oldKey newKey identityKey d)
  | revoke key all identityKey =>
      exact keeps_file keys umask home _ (keeps_run_revoke keys umask home codec derive key all identityKey d)
  | identity key =>
      refine (keeps_read_pubkey d codec derive key).weaken ?_
      intro _ _ _ _ _ p none_
      cases none_
  | serverKeygen out force seed =>
      exact keeps_file keys umask home _ (keeps_keygen d out force seed (fun own => by cases own))
  | serve asRoot configured keyFile seed =>
      refine keeps_file keys umask home _ (keeps_run_serve keys umask home codec derive named _ asRoot configured keyFile
        seed ?_ d)
      intro own
      cases asRoot with
      | true => cases own
      | false =>
          cases configured with
          | some path => cases own
          | none =>
              cases keyFile with
              | some path => cases own
              | none => exact ⟨rfl, rfl, rfl⟩

-- Any number of commands at work on one disk, next to whatever else goes on there.
def working {ι : Type} (jobs : ι → Invocation) (disk : Disk) :
    Pool Call Call.Reply Error Disk ι (fun i => (jobs i).Result prim) :=
  ⟨disk, fun i => (jobs i).program prim codec derive home⟩

theorem step_tightens {ι : Type} {α : ι → Type} [DecidableEq ι] (on : Path → Prop) (promise : ι → Call → Disk → Disk → Prop)
    (kept : ∀ i c d after, promise i c d after → Disk.Tightens on d after) (u v : Pool Call Call.Reply Error Disk ι α)
    (label : Act ι Call) (step : Calls.Step (FileTree.Call.Performs umask) (Disk.Tightens on) u label v)
    (promised : ∀ i c, label = .turn i c → promise i c u.shared v.shared) : Disk.Tightens on u.shared v.shared := by
  cases step with
  | outside after moved => exact moved
  | turn i c rest a after next handled => exact kept i c _ _ (promised i c rfl)

-- The key files of all the commands. Their owner does not let others at them or
-- at `home`, and neither removes nor replaces them; the rest of the disk is free.
def keyFiles {ι : Type} (jobs : ι → Invocation) (p : Path) : Prop := ∃ i, (jobs i).keyFile home = some p

end Commands

section Sample

open Sample

def ourHome : Path := pathOf "/home/sqns".toList

-- A disk with nothing but the directory all others are in.
def bare : Disk := fun p => if p = root then some (.directory 0o755) else none

def sevens : Seed := List.Vector.replicate 32 7

def anyKey : Seed → SigningKey := fun _ => ⟨node, fun _ => List.Vector.replicate 64 0⟩

-- One terminal generates a service key, another an identity key.
def terminals : Bool → Invocation
  | true => .keygen none false false sevens
  | false => .keygen none true false sevens

def generating : Command Unit := runKeygen ourHome none false false sevens

theorem generating_ends : (generating.exec (FileTree.Call.perform 0o022) bare).1 = .ok () := by rfl

-- A system on which no bits can be set.
def unsettable (c : Call) (d : Disk) : c.Reply × Disk :=
  match c with
  | .setPermissions _ _ => (.error (.other "Operation not permitted (os error 1)"), d)
  | c => FileTree.Call.perform 0o022 c d

theorem unsettable_performs (c : Call) (d : Disk) : FileTree.Call.Performs 0o022 c d (unsettable c d).1 (unsettable c d).2 := by
  cases c with
  | setPermissions p bits => exact .refused _ d _
  | metadata p => exact .done _ d
  | read p => exact .done _ d
  | create p => exact .done _ d
  | write p bytes => exact .done _ d
  | createDir p => exact .done _ d

def rootServer : Unit → Invocation := fun _ => .serve true none none sevens

def serving : Command SigningKey := runServe crates anyKey ourHome true none none sevens

-- Nobody closes /etc/sqns: root's key can be read there until its bits are set, and
-- for good if they cannot be.
theorem root_key_exposed_until_set :
    ∃ run t, Run (Calls.Step (FileTree.Call.Performs 0o022) (Disk.Tightens (Spared (keyFiles ourHome rootServer) ourHome)))
      (working ourHome ed25519 crates anyKey rootServer bare) run t ∧ t.shared.Exposed systemKey := by
  obtain ⟨run, _, whole⟩ := exec_run (FileTree.Call.Performs 0o022)
    (Disk.Tightens (Spared (keyFiles ourHome rootServer) ourHome)) unsettable unsettable_performs ()
    serving (working ourHome ed25519 crates anyKey rootServer bare) rfl
  refine ⟨run, _, whole, ?_⟩
  have modes : (serving.exec unsettable bare).2 systemKey = some (.file 0o644 (secretText sevens)) := by rfl
  have wide : ∀ dir ∈ [root, pathOf "/etc".toList, pathOf "/etc/sqns".toList],
      (serving.exec unsettable bare).2 dir = some (.directory 0o755) := by
    simp only [List.forall_mem_cons]
    exact ⟨rfl, rfl, rfl, fun dir member => by cases member⟩
  refine ⟨⟨_, modes, rfl, by decide⟩, ?_⟩
  rintro dir member ⟨entry, held, _, hidden⟩
  cases (wide dir member).symm.trans held
  exact hidden (by decide)

end Sample

end Sqns.KeyFiles
