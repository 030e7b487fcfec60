import Codery.HostPorts
import Codery.Fixes
import Codery.Layers

/-! The host ports and the interfaces a container is published on: the sum of `host_port`, and the
map `build_port_bindings` hands to Docker. -/

namespace Codery

open Effect Validate

variable {d : ServiceDef} {color : Color} {c : UInt16}

/-- The named ports that Docker publishes. -/
def ServiceDef.published (d : ServiceDef) : List NamedPort :=
  d.ports.filter fun p => !(p.protocol == .udp && p.fixedPort.isSome)

def ServiceDef.bindingSpec (d : ServiceDef) (color : Color) (bind : PortBind) (c : UInt16) :
    PortBindingSpec where
  host := d.portScheme.hostPort color c
  container := c
  bind := bind

theorem PortRange.mem_containerPorts {r : PortRange} :
    c ∈ r.containerPorts ↔ r.containerStart ≤ c ∧ c ≤ r.containerEnd := by
  have top := r.containerEnd.toNat_lt
  have bottom := r.containerStart.toNat_lt
  have here := c.toNat_lt
  simp only [containerPorts, List.mem_map, List.mem_range, UInt16.le_iff_toNat_le]
  constructor
  · rintro ⟨i, small, rfl⟩
    have place : (r.containerStart + UInt16.ofNat i).toNat = r.containerStart.toNat + i := by
      rw [UInt16.toNat_add, UInt16.toNat_ofNat']
      omega
    omega
  · rintro ⟨lower, upper⟩
    refine ⟨c.toNat - r.containerStart.toNat, by omega, UInt16.toNat_inj.mp ?_⟩
    rw [UInt16.toNat_add, UInt16.toNat_ofNat']
    omega

theorem mem_portBindingSpecs {s : PortBindingSpec} :
    s ∈ d.portBindingSpecs color ↔
      (∃ p ∈ d.published, s = d.bindingSpec color p.bind p.containerPort) ∨
        ∃ r, d.portRange = some r ∧ ∃ c, r.containerStart ≤ c ∧ c ≤ r.containerEnd ∧
          s = d.bindingSpec color r.bind c := by
  unfold ServiceDef.portBindingSpecs
  rw [List.mem_append, List.mem_map]
  refine or_congr ⟨fun ⟨p, mem, same⟩ => ⟨p, mem, same.symm⟩,
    fun ⟨p, mem, same⟩ => ⟨p, mem, same.symm⟩⟩ ?_
  cases range : d.portRange with
  | none => simp
  | some r =>
    simp only [List.mem_map, PortRange.mem_containerPorts, Option.some.injEq, exists_eq_left']
    exact ⟨fun ⟨c, ⟨lower, upper⟩, same⟩ => ⟨c, lower, upper, same.symm⟩,
      fun ⟨c, lower, upper, same⟩ => ⟨c, ⟨lower, upper⟩, same.symm⟩⟩

/-! ### The sum -/

theorem hostPort_toNat_iff (s : PortScheme) :
    (s.hostPort color c).toNat = c.toNat + (s.offset color).toNat ↔
      c.toNat + (s.offset color).toNat < 65536 := by
  rw [hostPort_eq, UInt16.toNat_add]
  have := (c + s.offset color).toNat_lt
  omega

/-- The last port of a range that is not empty. -/
def PortRange.last (r : PortRange) : Option UInt16 :=
  if r.containerStart ≤ r.containerEnd then some r.containerEnd else none

/-- The larger offset keeps the named ports, and the last one of the range, below 2^16. -/
def ServiceDef.OffsetsFit (d : ServiceDef) : Prop :=
  ∀ c ∈ d.published.map (·.containerPort) ++ (d.portRange.bind (·.last)).toList,
    c.toNat + max d.portScheme.blueOffset.toNat d.portScheme.greenOffset.toNat < 65536

theorem PortScheme.offset_le (s : PortScheme) (color : Color) :
    (s.offset color).toNat ≤ max s.blueOffset.toNat s.greenOffset.toNat := by
  cases color with
  | blue => exact le_max_left _ _
  | green => exact le_max_right _ _

theorem PortScheme.exists_max_offset (s : PortScheme) :
    ∃ color, (s.offset color).toNat = max s.blueOffset.toNat s.greenOffset.toNat := by
  cases le_total s.blueOffset.toNat s.greenOffset.toNat with
  | inl le => exact ⟨.green, (max_eq_right le).symm⟩
  | inr le => exact ⟨.blue, (max_eq_left le).symm⟩

/-- The ports that `OffsetsFit` looks at are published themselves, and bound the others. -/
theorem offsetsFit_iff :
    d.OffsetsFit ↔ ∀ color, ∀ s ∈ d.portBindingSpecs color,
      s.container.toNat + (d.portScheme.offset color).toNat < 65536 := by
  constructor
  · intro fit color s mem
    have le := d.portScheme.offset_le color
    obtain ⟨p, named, rfl⟩ | ⟨r, range, c, lower, upper, rfl⟩ := mem_portBindingSpecs.mp mem
    · have := fit p.containerPort (List.mem_append_left _ (List.mem_map_of_mem named))
      simp only [ServiceDef.bindingSpec]
      omega
    · have last : r.last = some r.containerEnd := if_pos (UInt16.le_trans lower upper)
      have := fit r.containerEnd (List.mem_append_right _ (by simp [range, last]))
      rw [UInt16.le_iff_toNat_le] at upper
      simp only [ServiceDef.bindingSpec]
      omega
  · intro all c mem
    obtain ⟨color, larger⟩ := d.portScheme.exists_max_offset
    rw [← larger]
    cases List.mem_append.mp mem with
    | inl named =>
      obtain ⟨p, here, rfl⟩ := List.mem_map.mp named
      exact all color _ (mem_portBindingSpecs.mpr (.inl ⟨p, here, rfl⟩))
    | inr last =>
      rw [Option.mem_toList, Option.bind_eq_some_iff] at last
      obtain ⟨r, range, last⟩ := last
      unfold PortRange.last at last
      split at last
      case isTrue nonempty =>
        cases last
        exact all color _ (mem_portBindingSpecs.mpr
          (.inr ⟨r, range, _, nonempty, UInt16.le_refl _, rfl⟩))
      case isFalse => cases last

/-- A host on which no container runs has every port free. -/
theorem idle_free {site : Site} :
    (Scenario.host .blue "v1" none none).PortsFree site d color := by
  intro q _
  right
  rw [Bool.eq_false_iff, ne_eq, Host.publishes_iff]
  rintro ⟨e, _, c, ⟨k, found, _⟩, _⟩
  simp [Scenario.host] at found

/-- `check_deploy` does not look at the sum: on some host it accepts any definition with sane UDP
ports, and what it accepts has unwrapped host ports exactly if the offsets fit. -/
theorem checked_ports_unwrapped_iff :
    (∀ (site : Site) (sha : String) (inactive : Color) (h h' : Host),
      Finishes (steps site) (checkDeploy d sha inactive).run h (.ok ()) h' →
        ∀ color, ∀ s ∈ d.portBindingSpecs color,
          s.host.toNat = s.container.toNat + (d.portScheme.offset color).toNat) ↔
      d.ports.flatMap udpErrors ≠ [] ∨ d.OffsetsFit := by
  have exact_iff : d.OffsetsFit ↔ ∀ color, ∀ s ∈ d.portBindingSpecs color,
      s.host.toNat = s.container.toNat + (d.portScheme.offset color).toNat := by
    rw [offsetsFit_iff]
    refine forall_congr' fun color => forall₂_congr fun s mem => ?_
    rw [portBindingSpecs_host mem, hostPort_toNat_iff]
  constructor
  · intro all
    by_cases udp : d.ports.flatMap udpErrors = []
    · have may : May (steps Scenario.site) _ (checkDeploy d "v1" .green).run
          (Scenario.host .blue "v1" none none) := checkDeploy_may udp idle_free
      obtain ⟨r, h', run, u, rfl, _⟩ := may.finishes
      exact .inr (exact_iff.mpr (all _ _ _ _ _ run))
    · exact .inl udp
  · rintro (udp | fit) site sha inactive h h' run
    · have checked : Spec site quiets h _ (checkDeploy d sha inactive).run := checkDeploy_spec
      exact absurd (Safe.finishes checked run).2.1 udp
    · exact exact_iff.mp fit

/-- The service with a green offset that takes its port past 2^16. -/
def wrappedPaseo : ServiceDef := { Scenario.paseo with portScheme := ⟨10000, 63000⟩ }

/-- It passes the checks, and its port 3000 is published at 464. -/
theorem wrapped_passes :
    ∃ h', Finishes (steps Scenario.site) (checkDeploy wrappedPaseo "v1" .green).run
        Scenario.serving (.ok ()) h' ∧
      ∃ s ∈ wrappedPaseo.portBindingSpecs .green, s.container = 3000 ∧ s.host = 464 ∧
        s.host.toNat ≠ s.container.toNat + (wrappedPaseo.portScheme.offset .green).toNat := by
  have may : May (steps Scenario.site) _ (checkDeploy wrappedPaseo "v1" .green).run
      Scenario.serving := checkDeploy_may (by decide) (by decide)
  obtain ⟨r, h', run, u, rfl, _⟩ := may.finishes
  exact ⟨h', run, ⟨464, 3000, .any⟩, by decide, rfl, rfl, by decide⟩

/-! ### The map of `start_container` -/

def tailscaleIpFile : String := "/run/tailscale.ip"

/-- `PortBind::resolve`, for what the file of the Tailscale IP reads as, if it can be read. -/
def PortBind.resolve (tailscaleIp : Option String) : PortBind → Except String String
  | .any => .ok "0.0.0.0"
  | .loopback => .ok "127.0.0.1"
  | .tailnet =>
    match (tailscaleIp.map trim).filter (· ≠ "") with
    | some ip => .ok ip
    | none => .error ("bind: tailnet requires the host Tailscale IP in " ++ tailscaleIpFile ++
        " — file missing or empty")

/-- Docker's `PortBinding`. -/
structure PortBinding where
  hostIp : Option String
  hostPort : Option String
  deriving DecidableEq

abbrev PortMap := List (String × Option (List PortBinding))

namespace PortMap

/-- `HashMap::insert`. -/
def insert (m : PortMap) (k : String) (v : Option (List PortBinding)) : PortMap :=
  Layers.insert Prod.fst m (k, v)

def get? (m : PortMap) (k : String) : Option (Option (List PortBinding)) :=
  (Layers.get? Prod.fst m k).map (·.2)

end PortMap

def PortBindingSpec.key (s : PortBindingSpec) : String := toString s.container ++ "/tcp"

/-- What the map says of a spec whose interface is `ip`. -/
def PortBindingSpec.binding (s : PortBindingSpec) (ip : String) : Option (List PortBinding) :=
  some [{ hostIp := some ip, hostPort := some (toString s.host) }]

/-- The loop of `build_port_bindings`.  Each `resolve` reads the file anew; `ips i` is what the one
of the `i`-th spec reads. -/
def insertBindings (m : PortMap) (ips : ℕ → Option String) :
    List PortBindingSpec → Except String PortMap
  | [] => .ok m
  | s :: specs =>
    match s.bind.resolve (ips 0) with
    | .error _ => .error ("resolving bind address for published port " ++ toString s.host ++
        " (container " ++ toString s.container ++ ")")
    | .ok ip => insertBindings (m.insert s.key (s.binding ip)) (fun i => ips (i + 1)) specs

def buildPortBindings (ips : ℕ → Option String) (specs : List PortBindingSpec) :
    Except String PortMap :=
  insertBindings [] ips specs

variable {ips : ℕ → Option String} {specs : List PortBindingSpec} {m m' : PortMap} {k k' : String}
  {s t : PortBindingSpec}

theorem key_inj : s.key = t.key ↔ s.container = t.container := by
  constructor
  · intro same
    have chars := congrArg String.toList same
    simp only [PortBindingSpec.key, String.toList_append, List.append_cancel_right_eq] at chars
    have digits : ∀ c : UInt16, (toString c).toList = Nat.toDigits 10 c.toNat :=
      fun _ => String.toList_ofList
    have value := congrArg (Nat.ofDigitChars 10 · 0) chars
    simp only [digits, Nat.ofDigitChars_ten_toDigits] at value
    exact UInt16.toNat_inj.mp value
  · intro same
    rw [PortBindingSpec.key, PortBindingSpec.key, same]

theorem PortMap.get?_insert {v : Option (List PortBinding)} :
    (m.insert k v).get? k' = if k = k' then some v else m.get? k' := by
  unfold PortMap.get? PortMap.insert
  rw [Layers.get?_insert]
  split
  · rfl
  · rfl

/-- `s` is the spec of the `i`-th turn, and its interface resolves to `ip` then. -/
def Turn (ips : ℕ → Option String) (specs : List PortBindingSpec) (i : ℕ) (s : PortBindingSpec)
    (ip : String) : Prop :=
  specs[i]? = some s ∧ s.bind.resolve (ips i) = .ok ip

/-- Each spec had its turn; a key of the map speaks of a spec for it, or of what was there if there
is none. -/
theorem insertBindings_ok (built : insertBindings m ips specs = .ok m') :
    (∀ i s, specs[i]? = some s → ∃ ip, Turn ips specs i s ip) ∧
      ((∃ i s ip, Turn ips specs i s ip ∧ s.key = k ∧ m'.get? k = some (s.binding ip)) ∨
        (∀ s ∈ specs, s.key ≠ k) ∧ m'.get? k = m.get? k) := by
  induction specs generalizing ips m with
  | nil =>
    cases built
    exact ⟨nofun, .inr ⟨nofun, rfl⟩⟩
  | cons s specs ih =>
    unfold insertBindings at built
    split at built
    case h_1 => cases built
    case h_2 ip resolved =>
      obtain ⟨turns, found⟩ := ih built
      refine ⟨fun i t place => ?_, ?_⟩
      · cases i with
        | zero =>
          cases place
          exact ⟨ip, rfl, resolved⟩
        | succ i => exact turns i t place
      obtain ⟨i, t, ip', turn, same, here⟩ | ⟨others, here⟩ := found
      · exact .inl ⟨i + 1, t, ip', turn, same, here⟩
      · rw [PortMap.get?_insert] at here
        by_cases same : s.key = k
        · rw [if_pos same] at here
          exact .inl ⟨0, s, ip, ⟨rfl, resolved⟩, same, here⟩
        · rw [if_neg same] at here
          exact .inr ⟨List.forall_mem_cons.mpr ⟨same, others⟩, here⟩

/-- Every spec is in the map, with its own host port and on the interface it asks for. -/
def EachBound (ips : ℕ → Option String) (specs : List PortBindingSpec) (m : PortMap) : Prop :=
  ∀ (i : ℕ) (s : PortBindingSpec), specs[i]? = some s →
    ∃ ip, s.bind.resolve (ips i) = .ok ip ∧ m.get? s.key = some (s.binding ip)

/-- Two specs of one container port ask for the same interface. -/
def InterfacesAgree (ips : ℕ → Option String) (specs : List PortBindingSpec) : Prop :=
  ∀ (i j : ℕ) (s t : PortBindingSpec), specs[i]? = some s → specs[j]? = some t →
    s.container = t.container → s.bind.resolve (ips i) = t.bind.resolve (ips j)

/-- The map is keyed by the container port, so the specs of one port overwrite each other: all of
them are in it exactly if they agree on the interface.  Their host ports agree anyway. -/
theorem bindings_own_iff (built : buildPortBindings ips (d.portBindingSpecs color) = .ok m) :
    EachBound ips (d.portBindingSpecs color) m ↔
      InterfacesAgree ips (d.portBindingSpecs color) := by
  constructor
  · intro bound i j s t here there same
    obtain ⟨ip, resolved, entry⟩ := bound i s here
    obtain ⟨ip', resolved', entry'⟩ := bound j t there
    rw [key_inj.mpr same, entry', Option.some_inj] at entry
    have addresses : ip' = ip := by
      simpa [PortBindingSpec.binding] using (congrArg (Option.map (List.map (·.hostIp))) entry)
    rw [resolved, resolved', addresses]
  · intro agree i s here
    obtain ⟨turns, found⟩ := insertBindings_ok (k := s.key) built
    obtain ⟨j, t, ip, ⟨there, resolved⟩, same, entry⟩ | ⟨others, _⟩ := found
    · have container := key_inj.mp same
      refine ⟨ip, (agree i j s t here there container.symm).trans resolved, ?_⟩
      have host : t.host = s.host := by
        rw [portBindingSpecs_host (List.mem_of_getElem? here),
          portBindingSpecs_host (List.mem_of_getElem? there), container]
      rw [entry, PortBindingSpec.binding, PortBindingSpec.binding, host]
    · exact absurd rfl (others s (List.mem_of_getElem? here))

theorem bindings_own_paseo :
    EachBound (fun _ => none) (Scenario.paseo.portBindingSpecs .blue)
      [("3000/tcp", some [⟨some "0.0.0.0", some "13000"⟩])] := by
  have built : buildPortBindings (fun _ => none) (Scenario.paseo.portBindingSpecs .blue) =
      .ok [("3000/tcp", some [⟨some "0.0.0.0", some "13000"⟩])] := by decide +kernel
  refine (bindings_own_iff built).mpr ?_
  intro i j s t here there _
  have only : ∀ s ∈ Scenario.paseo.portBindingSpecs .blue, s.bind = .any := by decide
  rw [only s (List.mem_of_getElem? here), only t (List.mem_of_getElem? there)]

/-- The service with an administration port for local processes inside a range for everyone. -/
def exposed : ServiceDef where
  service := "paseo"
  image := "ghcr.io/coderyoss/codery:paseo-{sha}"
  portScheme := ⟨10000, 20000⟩
  ports := [{ name := "admin", containerPort := 3000, fixedPort := some 2222, bind := .loopback }]
  portRange := some ⟨3000, 3001, .any⟩
  healthCheck := .docker 60
  network := "codery-net"

/-- The port is published on every interface. -/
theorem exposed_bindings :
    ∃ m, buildPortBindings (fun _ => none) (exposed.portBindingSpecs .blue) = .ok m ∧
      m.get? "3000/tcp" = some (some [⟨some "0.0.0.0", some "13000"⟩]) ∧
      ¬ EachBound (fun _ => none) (exposed.portBindingSpecs .blue) m := by
  refine ⟨[("3000/tcp", some [⟨some "0.0.0.0", some "13000"⟩]),
    ("3001/tcp", some [⟨some "0.0.0.0", some "13001"⟩])], by decide +kernel, by decide +kernel, ?_⟩
  intro bound
  obtain ⟨ip, resolved, entry⟩ := bound 0 ⟨13000, 3000, .loopback⟩ (by decide +kernel)
  cases resolved
  exact absurd entry (by decide +kernel)

/-- While the file stays as it is, the specs agree exactly if the named ports of one container port,
and the range around it, ask for one interface. -/
theorem interfacesAgree_iff {ip : Option String} :
    InterfacesAgree (fun _ => ip) (d.portBindingSpecs color) ↔
      (∀ p ∈ d.published, ∀ q ∈ d.published, p.containerPort = q.containerPort →
        p.bind.resolve ip = q.bind.resolve ip) ∧
      ∀ p ∈ d.published, ∀ r, d.portRange = some r → r.containerStart ≤ p.containerPort →
        p.containerPort ≤ r.containerEnd → p.bind.resolve ip = r.bind.resolve ip := by
  have members : InterfacesAgree (fun _ => ip) (d.portBindingSpecs color) ↔
      ∀ s ∈ d.portBindingSpecs color, ∀ t ∈ d.portBindingSpecs color, s.container = t.container →
        s.bind.resolve ip = t.bind.resolve ip := by
    constructor
    · intro agree s hs t ht
      obtain ⟨i, here⟩ := List.mem_iff_getElem?.mp hs
      obtain ⟨j, there⟩ := List.mem_iff_getElem?.mp ht
      exact agree i j s t here there
    · exact fun all i j s t here there =>
        all s (List.mem_of_getElem? here) t (List.mem_of_getElem? there)
  have spec {p : NamedPort} (hp : p ∈ d.published) :
      d.bindingSpec color p.bind p.containerPort ∈ d.portBindingSpecs color :=
    mem_portBindingSpecs.mpr (.inl ⟨p, hp, rfl⟩)
  rw [members]
  constructor
  · intro all
    exact ⟨fun p hp q hq => all _ (spec hp) _ (spec hq), fun p hp r range lower upper =>
      all _ (spec hp) _ (mem_portBindingSpecs.mpr (.inr ⟨r, range, _, lower, upper, rfl⟩)) rfl⟩
  · rintro ⟨named, ranged⟩ s hs t ht same
    obtain ⟨p, hp, rfl⟩ | ⟨r, hr, c, lower, upper, rfl⟩ := mem_portBindingSpecs.mp hs
    · obtain ⟨q, hq, rfl⟩ | ⟨r, hr, c, lower, upper, rfl⟩ := mem_portBindingSpecs.mp ht
      · exact named p hp q hq same
      · cases show p.containerPort = c from same
        exact ranged p hp r hr lower upper
    · obtain ⟨q, hq, rfl⟩ | ⟨r', hr', c', _, _, rfl⟩ := mem_portBindingSpecs.mp ht
      · cases show c = q.containerPort from same
        exact (ranged q hq r hr lower upper).symm
      · rw [hr] at hr'
        cases hr'
        rfl

end Codery
