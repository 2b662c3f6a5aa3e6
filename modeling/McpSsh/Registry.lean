import McpSsh.Identity

/-!
# The registry

Which hosts exist, which roles they offer, and what to dial. Deserialization
refuses a repeated name, so each map is an association list with distinct keys.
-/

namespace McpSsh

/-- A text that has to say something. -/
structure NonBlank where
  text : String
  stated : isBlank text = false
  deriving DecidableEq

/-- What one role on one host resolves to. -/
structure RoleEntry where
  user : NonBlank
  credential : NonBlank
  accessClass : AccessClass
  deriving DecidableEq

structure HostEntry where
  address : NonBlank
  hostKey : NonBlank
  roles : List (RoleId × RoleEntry)
  distinct : (roles.map Prod.fst).Nodup
  deriving DecidableEq

/-- The set of hosts this deployment may reach. -/
structure Registry where
  hosts : List (HostId × HostEntry)
  distinct : (hosts.map Prod.fst).Nodup
  deriving DecidableEq

inductive ResolveError
  | unknownHost (host : HostId)
  | unknownRole (host : HostId) (role : RoleId)
  deriving DecidableEq

/-- Everything needed to open a connection for one host and role, with the
pair it was resolved for. -/
structure Target where
  host : HostId
  role : RoleId
  address : NonBlank
  hostKey : NonBlank
  user : NonBlank
  credential : NonBlank
  accessClass : AccessClass
  deriving DecidableEq

/-- `Registry::resolve`. -/
def Registry.resolve (registry : Registry) (host : HostId) (role : RoleId) :
    Except ResolveError Target :=
  match registry.hosts.lookup host with
  | none => .error (.unknownHost host)
  | some entry =>
    match entry.roles.lookup role with
    | none => .error (.unknownRole host role)
    | some assigned => .ok {
        host, role
        address := entry.address
        hostKey := entry.hostKey
        user := assigned.user
        credential := assigned.credential
        accessClass := assigned.accessClass }

/-- A target is labelled with the pair it was looked up under. -/
theorem Registry.resolve_labelled {registry : Registry} {host : HostId} {role : RoleId}
    {target : Target} (found : registry.resolve host role = .ok target) :
    target.host = host ∧ target.role = role := by
  unfold Registry.resolve at found
  split at found
  · cases found
  · split at found
    · cases found
    · cases found
      exact ⟨rfl, rfl⟩

end McpSsh
