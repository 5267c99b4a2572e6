import Mathlib.Data.List.TakeWhile
import Rbo.Discovery.Address

/-!
# Following a controller to a new address

A running agent browses for the pinned controller and is given a new URL when
the controller is found at another address.  The URL parser is a parameter
with the documented behaviour that the code relies on.
-/

namespace Rbo.Agent.ControllerRefresh

open Rbo.Foundation
open Rbo.Discovery

/-- What `new URL` gives; the port is none when the parser elides it. -/
structure Url where
  protocol : Text
  hostname : Text
  port : Option Nat
  deriving DecidableEq

/-- A controller found on the network.  No other port and no blank fingerprint
pass `serviceToController`. -/
structure DiscoveredController where
  host : Text
  addresses : List Text
  port : Nat
  fingerprint : Text
  responderAddress : Option Text
  portPositive : 0 < port
  portBounded : port ≤ 65535
  fingerprinted : trim fingerprint ≠ []
  addressed : ∀ value ∈ advertisedAddresses addresses responderAddress,
    Address value

def wss : Text := ['w', 's', 's', ':']

def agentPlaneUrl (host : Text) (port : Nat) : Text :=
  let hostPart :=
    if host.contains ':' = true ∧ host.head? ≠ some '[' then
      '[' :: (host ++ [']'])
    else
      host
  wss ++ ['/', '/'] ++ hostPart ++ ':' :: Nat.toDigits 10 port ++
    ['/', 'a', 'g', 'e', 'n', 't']

namespace DiscoveredController

/-- The address that is dialled, none when there is only the host name. -/
def selected (controller : DiscoveredController) : Option Text :=
  selectAddress controller.addresses controller.responderAddress

def controllerAgentUrl (controller : DiscoveredController) : Text :=
  agentPlaneUrl
    (selectBestAddress controller.addresses controller.host
      controller.responderAddress)
    controller.port

def routableAdvertisedHosts (controller : DiscoveredController) : List Text :=
  ((advertisedAddresses controller.addresses
    controller.responderAddress).map stripMapped).filterMap fun normalized =>
      if isRoutableIpAddress normalized then some (lower normalized) else none

end DiscoveredController

def Url.portNumber (url : Url) : Nat :=
  match url.port with
  | some port => port
  | none => if url.protocol = wss then 443 else 80

/-- `toLowerCase` and the URL parser. -/
structure Platform where
  toLowerCase : Text → Text
  URL : Text → Option Url

namespace Platform

/-- The documented behaviour that the code relies on. -/
structure Documented (platform : Platform) : Prop where
  lowered : ∀ text, platform.toLowerCase text = [] → text = []
  /-- A host name has no colon, except an IPv6 address in brackets. -/
  bare : ∀ text url, platform.URL text = some url →
    url.hostname.head? = some '[' ∨ ':' ∉ url.hostname
  /-- A dotted address is serialised as it is, and the port 443 is elided. -/
  dotted : ∀ host port, Dotted host → 0 < port → port ≤ 65535 →
    platform.URL (agentPlaneUrl host port) = some
      ⟨wss, host, if port = 443 then none else some port⟩
  /-- What is in brackets keeps them. -/
  bracketed : ∀ rest url, '@' ∉ rest →
    platform.URL (wss ++ ['/', '/'] ++ '[' :: rest) = some url →
    url.hostname.head? = some '['

variable (platform : Platform)

def agentUrlHasRoutableIp (url : Text) : Bool :=
  match platform.URL url with
  | some parsed => isRoutableIpAddress parsed.hostname
  | none => false

structure Endpoint where
  host : Text
  port : Nat

def parseAgentPlaneUrl (url : Text) : Option Endpoint :=
  match platform.URL (trim url) with
  | some parsed =>
    if parsed.portNumber = 0 then
      none
    else
      some ⟨lower (stripMapped parsed.hostname), parsed.portNumber⟩
  | none => none

/-- The comparison of fingerprints. -/
def pinned (fingerprint : Text) (controller : DiscoveredController) : Bool :=
  platform.toLowerCase (trim controller.fingerprint)
    = platform.toLowerCase (trim fingerprint)

/-- The endpoint of the URL, when its host is among those that the controller
advertises. -/
def keptEndpoint (currentUrl : Text) (controller : DiscoveredController) :
    Option Endpoint :=
  (platform.parseAgentPlaneUrl currentUrl).filter fun current =>
    controller.routableAdvertisedHosts.contains current.host

def relocatedControllerUrl (currentUrl fingerprint : Text)
    (controllers : List DiscoveredController) : Option Text :=
  if platform.toLowerCase (trim fingerprint) = [] then
    none
  else
    match controllers.find? (platform.pinned fingerprint) with
    | none => none
    | some found =>
      match platform.keptEndpoint currentUrl found with
      | some current =>
        if current.port = found.port then
          none
        else
          let sameHost := agentPlaneUrl current.host found.port
          if sameHost = trim currentUrl then none else some sameHost
      | none =>
        let next := found.controllerAgentUrl
        if platform.agentUrlHasRoutableIp next = false ∨
            next = trim currentUrl then
          none
        else
          some next

/-! ## What a relocation owes -/

variable (currentUrl fingerprint : Text)
  (controllers : List DiscoveredController)

/-- The host and the port of the URL are among those that the controller
advertises. -/
def Advertises (controller : DiscoveredController) : Prop :=
  ∃ host ∈ controller.routableAdvertisedHosts, ∃ current offered,
    platform.URL (trim currentUrl) = some current ∧
      platform.URL (agentPlaneUrl host controller.port) = some offered ∧
      current.hostname = offered.hostname ∧
      current.portNumber = offered.portNumber

/-- Soundness, stability and completeness of the relocation. -/
structure Relocates : Prop where
  sound : ∀ url,
    platform.relocatedControllerUrl currentUrl fingerprint controllers
      = some url →
    ∃ parsed, platform.URL url = some parsed ∧
      isRoutableIpAddress parsed.hostname = true ∧
      ∃ controller ∈ controllers,
        platform.pinned fingerprint controller = true ∧
          parsed.portNumber = controller.port
  stable : ∀ url,
    platform.relocatedControllerUrl currentUrl fingerprint controllers
      = some url →
    platform.relocatedControllerUrl url fingerprint controllers = none
  complete : ∀ controller ∈ controllers,
    platform.pinned fingerprint controller = true →
    controller.routableAdvertisedHosts ≠ [] →
    ¬platform.Advertises currentUrl controller →
    ∃ url, platform.relocatedControllerUrl currentUrl fingerprint controllers
      = some url

/-- No controller asks for another URL. -/
def Settled : Prop :=
  ∀ controller ∈ controllers, platform.pinned fingerprint controller = true →
    controller.routableAdvertisedHosts ≠ [] →
    platform.Advertises currentUrl controller

/-- The first controller with the fingerprint can be followed, or none has to
be: its advertised host is kept under a new port, or the address selected for
it is not an IPv6 address. -/
def Followed : Prop :=
  match controllers.find? (platform.pinned fingerprint) with
  | none => True
  | some first =>
    match platform.keptEndpoint currentUrl first with
    | some current => current.port ≠ first.port ∨
        platform.Settled currentUrl fingerprint controllers
    | none =>
      match first.selected with
      | some address => ':' ∉ address ∨
          platform.Settled currentUrl fingerprint controllers
      | none =>
        if platform.agentUrlHasRoutableIp first.controllerAgentUrl = true ∧
            first.controllerAgentUrl ≠ trim currentUrl then
          -- the host name is itself the text of an address
          ∃ parsed, platform.URL first.controllerAgentUrl = some parsed ∧
            ∃ controller ∈ controllers,
              platform.pinned fingerprint controller = true ∧
                parsed.portNumber = controller.port
        else
          platform.Settled currentUrl fingerprint controllers

/-! ## The URLs of addresses -/

theorem trim_of_ends {first last : Char} (middle : Text)
    (starts : isTrimmed first = false) (ends : isTrimmed last = false) :
    trim (first :: (middle ++ [last])) = first :: (middle ++ [last]) := by
  have kept : trimStart (first :: (middle ++ [last]))
      = first :: (middle ++ [last]) :=
    List.dropWhile_cons_of_neg (by simp [starts])
  have reversed : (first :: (middle ++ [last])).reverse
      = last :: (first :: middle).reverse := by simp
  unfold trim
  rw [kept, reversed]
  unfold trimStart
  rw [List.dropWhile_cons_of_neg (by simp [ends]), ← reversed,
    List.reverse_reverse]

theorem trim_agentPlaneUrl (host : Text) (port : Nat) :
    trim (agentPlaneUrl host port) = agentPlaneUrl host port := by
  unfold agentPlaneUrl
  generalize (if host.contains ':' = true ∧ host.head? ≠ some '[' then
    '[' :: (host ++ [']']) else host) = hostPart
  have ends : wss ++ ['/', '/'] ++ hostPart ++ ':' :: Nat.toDigits 10 port ++
      ['/', 'a', 'g', 'e', 'n', 't']
      = 'w' :: (['s', 's', ':', '/', '/'] ++ hostPart ++
        ':' :: Nat.toDigits 10 port ++ ['/', 'a', 'g', 'e', 'n'] ++ ['t']) := by
    simp [wss]
  rw [ends]
  exact trim_of_ends _ (by decide) (by decide)

theorem portNumber_elided {host : Text} {port : Nat} :
    Url.portNumber ⟨wss, host, if port = 443 then none else some port⟩
      = port := by
  by_cases elided : port = 443
  · subst elided
    rfl
  · rw [if_neg elided]
    rfl

section Addresses

variable {platform} {currentUrl fingerprint} {controllers}
  (documented : platform.Documented) {found : DiscoveredController}

include documented

theorem parseAgentPlaneUrl_dotted {host : Text} (dotted : Dotted host) :
    platform.parseAgentPlaneUrl (agentPlaneUrl host found.port)
      = some ⟨host, found.port⟩ := by
  unfold parseAgentPlaneUrl
  rw [trim_agentPlaneUrl, documented.dotted host found.port dotted
    found.portPositive found.portBounded]
  simp only [portNumber_elided, stripMapped_of_bare dotted.bare,
    dotted.lower_eq]
  exact if_neg (Nat.pos_iff_ne_zero.mp found.portPositive)

omit documented in
theorem mem_routableAdvertisedHosts {host : Text} :
    host ∈ found.routableAdvertisedHosts ↔
      ∃ value ∈ advertisedAddresses found.addresses found.responderAddress,
        isRoutableIpAddress (stripMapped value) = true ∧
          lower (stripMapped value) = host := by
  simp [DiscoveredController.routableAdvertisedHosts, List.mem_filterMap]

/-- The host of a URL is advertised only as a dotted address. -/
theorem dotted_of_advertised {current : Endpoint}
    (parses : platform.parseAgentPlaneUrl currentUrl = some current)
    (advertised : current.host ∈ found.routableAdvertisedHosts) :
    Dotted current.host ∧ isRoutableIpAddress current.host = true ∧
      ∃ value ∈ advertisedAddresses found.addresses found.responderAddress,
        current.host = stripMapped value := by
  obtain ⟨value, member, routable, same⟩ :=
    mem_routableAdvertisedHosts.mp advertised
  unfold parseAgentPlaneUrl at parses
  split at parses
  · next parsed url =>
    split_ifs at parses
    have host : lower (stripMapped parsed.hostname) = current.host :=
      congrArg Endpoint.host (Option.some.inj parses)
    rcases found.addressed value member with dotted | colon
    · rw [dotted.lower_eq] at same
      rw [← same]
      exact ⟨dotted, routable, value, member, rfl⟩
    · exfalso
      rw [← host] at same
      rcases documented.bare _ parsed url with bracket | bare
      · -- the advertised text would begin with the bracket
        have unmapped : stripMapped parsed.hostname = parsed.hostname :=
          stripMapped_of_head (by rw [bracket]; decide)
        rw [unmapped] at same
        have head : (stripMapped value).head?.map Char.toLower = some '[' := by
          rw [← List.head?_map]
          change (lower (stripMapped value)).head? = some '['
          rw [same, lower, List.head?_map, bracket]
          decide
        obtain ⟨first, heads, lowered⟩ := Option.map_eq_some_iff.mp head
        rw [eq_of_toLower (by decide) lowered] at heads
        rw [not_isRoutable_of_bracket heads] at routable
        cases routable
      · rw [stripMapped_of_bare bare] at same
        refine bare (lower_eq_colon ?_)
        rw [← same]
        exact List.mem_map_of_mem (f := Char.toLower) colon
  · cases parses

/-- An IPv6 address is not dialled: the host name keeps its brackets. -/
theorem not_dialled_of_colon {address : Text} {port : Nat}
    (routable : isRoutableIpAddress address = true) (colon : ':' ∈ address) :
    platform.agentUrlHasRoutableIp (agentPlaneUrl address port) = false := by
  have chars := isAddressChar_of_isRoutable routable
  have unbracketed : address.head? ≠ some '[' := fun bracket => by
    rw [not_isRoutable_of_bracket bracket] at routable
    cases routable
  have text : agentPlaneUrl address port = wss ++ ['/', '/'] ++
      '[' :: (address ++ ']' :: ':' :: Nat.toDigits 10 port ++
        ['/', 'a', 'g', 'e', 'n', 't']) := by
    unfold agentPlaneUrl
    rw [if_pos ⟨List.contains_iff_mem.mpr colon, unbracketed⟩]
    simp
  have noUser : '@' ∉ address ++ ']' :: ':' :: Nat.toDigits 10 port ++
      ['/', 'a', 'g', 'e', 'n', 't'] := by
    intro member
    rw [List.mem_append, List.mem_append] at member
    rcases member with (here | digit) | path
    · exact absurd (chars '@' here) (by decide)
    · simp only [List.mem_cons] at digit
      rcases digit with same | same | digit
      · exact absurd same (by decide)
      · exact absurd same (by decide)
      · have isDigit : Char.isDigit '@' = true :=
          Nat.isDigit_of_mem_toDigits (by decide) (by decide) digit
        exact absurd isDigit (by decide)
    · exact absurd path (by decide)
  unfold agentUrlHasRoutableIp
  split
  · next parsed url =>
    rw [text] at url
    exact not_isRoutable_of_bracket (documented.bracketed _ parsed noUser url)
  · rfl

end Addresses

/-! ## The two branches -/

section Branches

variable {platform} {currentUrl fingerprint} {controllers}
  (documented : platform.Documented) {found : DiscoveredController}
  (first : controllers.find? (platform.pinned fingerprint) = some found)

include first in
theorem pinned_first : platform.pinned fingerprint found = true ∧
    found ∈ controllers :=
  ⟨List.find?_some first, List.mem_of_find?_eq_some first⟩

theorem relocatedControllerUrl_of_absent
    (absent : controllers.find? (platform.pinned fingerprint) = none) :
    platform.relocatedControllerUrl currentUrl fingerprint controllers
      = none := by
  unfold relocatedControllerUrl
  rw [absent]
  exact ite_self none

include documented first

/-- A fingerprint that some controller has is not blank. -/
theorem wanted : platform.toLowerCase (trim fingerprint) ≠ [] := by
  intro blank
  have same := of_decide_eq_true (pinned_first first).1
  exact found.fingerprinted (documented.lowered _ (same.trans blank))

theorem relocatedControllerUrl_kept {current : Endpoint}
    (kept : platform.keptEndpoint currentUrl found = some current) :
    platform.relocatedControllerUrl currentUrl fingerprint controllers =
      if current.port = found.port then none
      else if agentPlaneUrl current.host found.port = trim currentUrl then none
      else some (agentPlaneUrl current.host found.port) := by
  unfold relocatedControllerUrl
  rw [if_neg (wanted documented first), first]
  simp only [kept]

theorem relocatedControllerUrl_moved
    (moved : platform.keptEndpoint currentUrl found = none) :
    platform.relocatedControllerUrl currentUrl fingerprint controllers =
      if platform.agentUrlHasRoutableIp found.controllerAgentUrl = false ∨
          found.controllerAgentUrl = trim currentUrl then none
      else some found.controllerAgentUrl := by
  unfold relocatedControllerUrl
  rw [if_neg (wanted documented first), first]
  simp only [moved]

/-- Called again with a URL that names an advertised dotted address and the
port, the function returns nothing. -/
theorem stable_of_dotted {host : Text} (dotted : Dotted host)
    (advertised : host ∈ found.routableAdvertisedHosts) :
    platform.relocatedControllerUrl (agentPlaneUrl host found.port)
      fingerprint controllers = none := by
  have kept : platform.keptEndpoint (agentPlaneUrl host found.port) found
      = some ⟨host, found.port⟩ := by
    unfold keptEndpoint
    rw [parseAgentPlaneUrl_dotted documented dotted]
    exact if_pos (List.contains_iff_mem.mpr advertised)
  rw [relocatedControllerUrl_kept documented first kept]
  exact if_pos rfl

/-- A URL of an advertised dotted address is sound and stable. -/
theorem relocates_of_dotted {host : Text} (dotted : Dotted host)
    (routable : isRoutableIpAddress host = true)
    (advertised : host ∈ found.routableAdvertisedHosts)
    (returned : platform.relocatedControllerUrl currentUrl fingerprint
      controllers = some (agentPlaneUrl host found.port)) :
    platform.Relocates currentUrl fingerprint controllers where
  sound url is := by
    obtain rfl := Option.some.inj (returned.symm.trans is)
    exact ⟨_, documented.dotted host found.port dotted found.portPositive
        found.portBounded, routable, found, (pinned_first first).2,
      (pinned_first first).1, portNumber_elided⟩
  stable url is := by
    obtain rfl := Option.some.inj (returned.symm.trans is)
    exact stable_of_dotted documented first dotted advertised
  complete _ _ _ _ _ := ⟨_, returned⟩

omit documented first in
/-- Where nothing is returned, nothing may be owed. -/
theorem relocates_of_none
    (nothing : platform.relocatedControllerUrl currentUrl fingerprint
      controllers = none) :
    platform.Relocates currentUrl fingerprint controllers ↔
      platform.Settled currentUrl fingerprint controllers := by
  constructor
  · intro relocates controller member pinned advertises
    by_contra unsettled
    obtain ⟨url, is⟩ :=
      relocates.complete controller member pinned advertises unsettled
    rw [nothing] at is
    cases is
  · intro settled
    refine ⟨fun url is => ?_, fun url is => ?_, ?_⟩
    · rw [nothing] at is
      cases is
    · rw [nothing] at is
      cases is
    · intro controller member pinned advertises unsettled
      exact absurd (settled controller member pinned advertises) unsettled

/-- A kept host gets a URL exactly when its port changed. -/
theorem relocates_kept {current : Endpoint}
    (kept : platform.keptEndpoint currentUrl found = some current) :
    platform.Relocates currentUrl fingerprint controllers ↔
      current.port ≠ found.port ∨
        platform.Settled currentUrl fingerprint controllers := by
  have branch := relocatedControllerUrl_kept documented first kept
  obtain ⟨parses, listed⟩ := Option.filter_eq_some_iff.mp kept
  have advertised := List.contains_iff_mem.mp listed
  obtain ⟨dotted, routable, -⟩ :=
    dotted_of_advertised documented parses advertised
  by_cases same : current.port = found.port
  · rw [if_pos same] at branch
    rw [relocates_of_none branch]
    exact ⟨Or.inr, fun either => either.resolve_left (absurd same)⟩
  · have other : agentPlaneUrl current.host found.port ≠ trim currentUrl := by
      intro is
      have again := @parseAgentPlaneUrl_dotted _ documented found _ dotted
      unfold parseAgentPlaneUrl at parses again
      rw [trim_agentPlaneUrl, is, parses] at again
      exact same (congrArg Endpoint.port (Option.some.inj again))
    rw [if_neg same, if_neg other] at branch
    exact ⟨fun _ => Or.inl same, fun _ =>
      relocates_of_dotted documented first dotted routable advertised branch⟩

/-- A selected address is dialled exactly when it is not an IPv6 address. -/
theorem relocates_selected {address : Text}
    (moved : platform.keptEndpoint currentUrl found = none)
    (selected : found.selected = some address) :
    platform.Relocates currentUrl fingerprint controllers ↔
      ':' ∉ address ∨ platform.Settled currentUrl fingerprint controllers := by
  have branch := relocatedControllerUrl_moved documented first moved
  have next : found.controllerAgentUrl = agentPlaneUrl address found.port := by
    unfold DiscoveredController.controllerAgentUrl selectBestAddress
    rw [show selectAddress found.addresses found.responderAddress
      = some address from selected]
    rfl
  rw [next] at branch
  obtain ⟨routable, value, member, text⟩ := selectAddress_eq_some selected
  by_cases colon : ':' ∈ address
  · rw [if_pos (Or.inl (not_dialled_of_colon documented routable colon))]
      at branch
    rw [relocates_of_none branch]
    exact ⟨Or.inr, fun either => either.resolve_left (absurd colon)⟩
  · have stripped : address = stripMapped value := by
      rcases text with rfl | same
      · exact (stripMapped_of_bare colon).symm
      · exact same
    have dotted : Dotted address := by
      rcases found.addressed value member with dotted | there
      · exact stripped ▸ dotted
      · exact absurd (stripped ▸ there) colon
    have advertised : address ∈ found.routableAdvertisedHosts :=
      mem_routableAdvertisedHosts.mpr ⟨value, member, stripped ▸ routable,
        stripped ▸ dotted.lower_eq⟩
    have dialled : platform.agentUrlHasRoutableIp
        (agentPlaneUrl address found.port) = true := by
      unfold agentUrlHasRoutableIp
      rw [documented.dotted address found.port dotted found.portPositive
        found.portBounded]
      exact routable
    have other : agentPlaneUrl address found.port ≠ trim currentUrl := by
      intro is
      have again := @parseAgentPlaneUrl_dotted _ documented found _ dotted
      unfold keptEndpoint at moved
      have parses : platform.parseAgentPlaneUrl currentUrl
          = some ⟨address, found.port⟩ := by
        rw [← again]
        unfold parseAgentPlaneUrl
        rw [trim_agentPlaneUrl, is]
      rw [parses] at moved
      exact Option.filter_eq_none_iff.mp moved _ rfl
        (List.contains_iff_mem.mpr advertised)
    rw [if_neg (by simp [dialled, other])] at branch
    exact ⟨fun _ => Or.inl colon, fun _ =>
      relocates_of_dotted documented first dotted routable advertised branch⟩

/-- Without a selected address, the host name may be the text of one. -/
theorem relocates_named
    (moved : platform.keptEndpoint currentUrl found = none)
    (unselected : found.selected = none)
    (dialled : platform.agentUrlHasRoutableIp found.controllerAgentUrl = true)
    (other : found.controllerAgentUrl ≠ trim currentUrl) :
    platform.Relocates currentUrl fingerprint controllers ↔
      ∃ parsed, platform.URL found.controllerAgentUrl = some parsed ∧
        ∃ controller ∈ controllers,
          platform.pinned fingerprint controller = true ∧
            parsed.portNumber = controller.port := by
  have branch := relocatedControllerUrl_moved documented first moved
  rw [if_neg (by simp [dialled, other])] at branch
  constructor
  · intro relocates
    obtain ⟨parsed, url, -, port⟩ := relocates.sound _ branch
    exact ⟨parsed, url, port⟩
  · rintro ⟨parsed, url, port⟩
    refine ⟨fun next is => ?_, fun next is => ?_, fun _ _ _ _ _ => ⟨_, branch⟩⟩
    · obtain rfl := Option.some.inj (branch.symm.trans is)
      unfold agentUrlHasRoutableIp at dialled
      rw [url] at dialled
      exact ⟨parsed, url, dialled, port⟩
    · obtain rfl := Option.some.inj (branch.symm.trans is)
      have away : platform.keptEndpoint found.controllerAgentUrl found
          = none := by
        refine Option.filter_eq_none_iff.mpr fun current parses listed => ?_
        obtain ⟨dotted, routable, value, member, text⟩ :=
          dotted_of_advertised documented parses
            (List.contains_iff_mem.mp listed)
        rw [text] at dotted routable
        rw [selectAddress_eq_none unselected value member dotted] at routable
        cases routable
      rw [relocatedControllerUrl_moved documented first away]
      exact if_pos (Or.inr (trim_agentPlaneUrl _ _).symm)

end Branches

theorem relocates_iff_followed (documented : platform.Documented) :
    platform.Relocates currentUrl fingerprint controllers ↔
      platform.Followed currentUrl fingerprint controllers := by
  unfold Followed
  split
  · next absent =>
    have settled : platform.Settled currentUrl fingerprint controllers :=
      fun controller member pinned _ =>
        absurd pinned (List.find?_eq_none.mp absent controller member)
    have nothing := @relocatedControllerUrl_of_absent _ currentUrl _ _ absent
    exact ⟨fun _ => trivial, fun _ => (relocates_of_none nothing).mpr settled⟩
  · next found first =>
    split
    · next current kept => exact relocates_kept documented first kept
    · next moved =>
      split
      · next address selected =>
        exact relocates_selected documented first moved selected
      · next unselected =>
        split_ifs with named
        · exact relocates_named documented first moved unselected named.1
            named.2
        · refine relocates_of_none ?_
          rw [relocatedControllerUrl_moved documented first moved]
          refine if_pos ?_
          by_contra neither
          rw [not_or, Bool.not_eq_false] at neither
          exact named neither

/-! ## A parser of plain URLs -/

/-- The host and the port that stand after the slashes. -/
def plainEndpoint (rest : Text) : Url :=
  let hostname :=
    if rest.head? = some '[' then rest.takeWhile (· ≠ ']') ++ [']']
    else rest.takeWhile (· ≠ ':')
  let digits := (rest.drop (hostname.length + 1)).takeWhile Char.isDigit
  let port := Nat.ofDigitChars 10 digits 0
  ⟨wss, hostname, if port = 443 then none else some port⟩

/-- A parser that reads the secure URLs of one host and one port. -/
def plain : Platform where
  toLowerCase := lower
  URL text :=
    if text.take 6 = wss ++ ['/', '/'] then some (plainEndpoint (text.drop 6))
    else none

theorem plainEndpoint_host (rest : Text) :
    (plainEndpoint rest).hostname.head? = some '[' ∨
      ':' ∉ (plainEndpoint rest).hostname := by
  by_cases bracket : rest.head? = some '['
  · left
    cases rest with
    | nil => cases bracket
    | cons first others =>
      obtain rfl := Option.some.inj bracket
      rfl
  · right
    change ':' ∉ if rest.head? = some '[' then _ else _
    rw [if_neg bracket]
    intro colon
    have kept := List.mem_takeWhile_imp colon
    simp at kept

theorem plainEndpoint_dotted {host : Text} (port : Nat)
    (dotted : Dotted host) :
    plainEndpoint (host ++ ':' :: (Nat.toDigits 10 port ++
      ['/', 'a', 'g', 'e', 'n', 't'])) =
        ⟨wss, host, if port = 443 then none else some port⟩ := by
  have digits : (Nat.toDigits 10 port ++
      ['/', 'a', 'g', 'e', 'n', 't']).takeWhile Char.isDigit
      = Nat.toDigits 10 port := by
    rw [List.takeWhile_append_of_pos fun char member =>
      Nat.isDigit_of_mem_toDigits (by decide) (by decide) member]
    simp
  generalize Nat.toDigits 10 port ++ ['/', 'a', 'g', 'e', 'n', 't'] = rest
    at digits
  have unbracketed : (host ++ ':' :: rest).head? ≠ some '[' := by
    cases host with
    | nil => simp
    | cons first _ =>
      intro bracket
      obtain rfl := Option.some.inj bracket
      exact absurd (dotted.small List.mem_cons_self) (by decide)
  have bare : ∀ char ∈ host, decide (char ≠ ':') = true := by
    intro char member
    refine decide_eq_true fun same => dotted.bare ?_
    exact same ▸ member
  have hostname : (host ++ ':' :: rest).takeWhile (· ≠ ':') = host := by
    rw [List.takeWhile_append_of_pos bare]
    simp
  have after : (host ++ ':' :: rest).drop (host.length + 1) = rest := by
    rw [List.drop_length_add_append]
    rfl
  unfold plainEndpoint
  simp only [if_neg unbracketed, hostname, after, digits,
    Nat.ofDigitChars_ten_toDigits]

theorem documented_plain : plain.Documented where
  lowered _ blank := List.map_eq_nil_iff.mp blank
  bare text url parses := by
    change (if text.take 6 = _ then some (plainEndpoint _) else none) = _
      at parses
    split_ifs at parses
    obtain rfl := Option.some.inj parses
    exact plainEndpoint_host _
  dotted host port dotted _ _ := by
    have text : agentPlaneUrl host port = wss ++ ['/', '/'] ++
        (host ++ ':' :: (Nat.toDigits 10 port ++
          ['/', 'a', 'g', 'e', 'n', 't'])) := by
      unfold agentPlaneUrl
      rw [if_neg fun colon => dotted.bare (List.contains_iff_mem.mp colon.1)]
      simp
    rw [text, ← plainEndpoint_dotted port dotted]
    rfl
  bracketed rest _ _ parses := by
    obtain rfl := Option.some.inj parses
    rfl

theorem addressed_single {address : Text} (is : Address address) :
    ∀ value ∈ advertisedAddresses [address] none, Address value := by
  intro value member
  rw [List.mem_singleton.mp member]
  exact is

/-- A controller that advertises one address, with the default port. -/
def controllerAt (address : Text) (is : Address address) :
    DiscoveredController where
  host := ['k', 'p', 'c']
  addresses := [address]
  port := 7411
  fingerprint := ['a', 'b', 'c']
  responderAddress := none
  portPositive := Nat.succ_pos _
  portBounded := Nat.le_of_ble_eq_true rfl
  fingerprinted := List.cons_ne_nil _ _
  addressed := addressed_single is

/-- The address that the controller left. -/
def oldUrl : Text :=
  agentPlaneUrl ['1', '9', '2', '.', '1', '6', '8', '.', '0', '.', '9'] 7411

theorem address_ipv4 :
    Address ['1', '9', '2', '.', '1', '6', '8', '.', '0', '.', '2', '0'] :=
  Or.inl ⟨192, 168, 0, 20, by decide⟩

theorem address_ipv6 : Address ['f', 'd', '0', '0', ':', ':', '2', '0'] :=
  Or.inr (by decide)

theorem relocates_ipv4 :
    plain.Relocates oldUrl ['a', 'b', 'c'] [controllerAt _ address_ipv4] :=
  (relocates_iff_followed _ _ _ _ documented_plain).mpr (Or.inl (by decide))

/-- The controller moved to an IPv6 address and the agent is given no URL. -/
theorem not_relocates_ipv6 :
    ¬plain.Relocates oldUrl ['a', 'b', 'c'] [controllerAt _ address_ipv6] := by
  intro relocates
  have nothing : plain.relocatedControllerUrl oldUrl ['a', 'b', 'c']
      [controllerAt _ address_ipv6] = none := by decide
  have elsewhere : ¬plain.Advertises oldUrl (controllerAt _ address_ipv6) := by
    rintro ⟨host, member, current, offered, now, next, same, -⟩
    obtain rfl := List.mem_singleton.mp member
    obtain rfl := Option.some.inj now
    obtain rfl := Option.some.inj next
    exact absurd same (by decide)
  obtain ⟨url, is⟩ := relocates.complete (controllerAt _ address_ipv6)
    List.mem_cons_self (by decide) (by decide) elsewhere
  rw [nothing] at is
  cases is

end Platform

end Rbo.Agent.ControllerRefresh
