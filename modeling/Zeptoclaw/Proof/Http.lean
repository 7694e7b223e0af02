import Zeptoclaw.Spec.Http

/-!
# Where the HTTP tools send their requests

`clientStep_cases` says once what a hop does. From it, over every run: the requests go to
listed hosts as long as no followed redirect leaves the list
(`HttpRequestTool.execute_hosts_allowed`), and the connections go to public addresses
exactly when the client's own lookups answer with public addresses only
(`execute_connects_public_iff`). Both conditions can fail, because a redirect target is
never compared with the list and its checked address is never pinned.
-/

namespace Zeptoclaw

variable {lib : NetLib} {net : Network} {pin : Option (Str × IpAddr)} {st : ClientState} {url : Url}

/-! ## One hop -/

theorem receiveReply_cases (lib : NetLib) (net : Network) (st : ClientState) (url : Url) (reply : Reply) :
    (∃ sent, (receiveReply lib net st url reply).events = st.events ++ sent ∧ ∀ e ∈ sent, e = .request url) ∧
      ((∃ result, (receiveReply lib net st url reply).phase = .done result) ∨
        ∃ target, (receiveReply lib net st url reply).phase = .contacting target ∧
          reply.redirectTarget = some target ∧
          (redirectPolicy lib net st.clock (st.previous ++ [url]) target).1 = .ok ()) := by
  cases reply with
  | refused => exact ⟨⟨[], by simp [receiveReply], by simp⟩, Or.inl ⟨_, rfl⟩⟩
  | lost => exact ⟨⟨[.request url], rfl, by simp⟩, Or.inl ⟨_, rfl⟩⟩
  | response status location =>
    unfold receiveReply
    simp only
    cases ht : (Reply.response status location).redirectTarget with
    | none => exact ⟨⟨[.request url], rfl, by simp⟩, Or.inl ⟨_, rfl⟩⟩
    | some target =>
      cases hp : redirectPolicy lib net st.clock (st.previous ++ [url]) target with
      | mk verdict clock =>
        cases verdict with
        | error e => exact ⟨⟨[.request url], by simp [hp], by simp⟩, Or.inl ⟨.error e, by simp [hp]⟩⟩
        | ok u =>
          exact ⟨⟨[.request url], by simp [hp], by simp⟩,
            Or.inr ⟨target, by simp [hp], rfl, by rw [hp]⟩⟩

/-- **What a hop does**: no connection and the end, or the connections for the URL, the
request if it got through, and then the end or a redirect that the policy follows. -/
theorem clientStep_cases (lib : NetLib) (net : Network) (pin : Option (Str × IpAddr))
    (h : st.phase = .contacting url) (reply : Reply) :
    (∃ e clock, openConnection lib net pin st.clock url = (.error e, clock) ∧
      (clientStep lib net pin st reply).events = st.events ∧
      (clientStep lib net pin st reply).phase = .done (.error e)) ∨
    (∃ connects clock sent, openConnection lib net pin st.clock url = (.ok connects, clock) ∧
      (clientStep lib net pin st reply).events = st.events ++ connects ++ sent ∧
      (∀ e ∈ sent, e = .request url) ∧
      ((∃ result, (clientStep lib net pin st reply).phase = .done result) ∨
        ∃ target, (clientStep lib net pin st reply).phase = .contacting target ∧
          reply.redirectTarget = some target ∧
          (redirectPolicy lib net clock (st.previous ++ [url]) target).1 = .ok ())) := by
  unfold clientStep
  simp only [h]
  cases ho : openConnection lib net pin st.clock url with
  | mk opened clock =>
    cases opened with
    | error e => exact Or.inl ⟨e, clock, rfl, rfl, rfl⟩
    | ok connects =>
      obtain ⟨⟨sent, hsent, hreq⟩, hphase⟩ := receiveReply_cases lib net
        { st with clock := clock, events := st.events ++ connects } url reply
      exact Or.inr ⟨connects, clock, sent, rfl, hsent, hreq, hphase⟩

theorem clientStep_done {result} (h : st.phase = .done result) (reply : Reply) :
    clientStep lib net pin st reply = st := by
  unfold clientStep; rw [h]

/-- The client connects to the literal address, to the pinned one, or to those its own
lookup answers with. -/
theorem openConnection_connects {clock clock' : ℕ} {connects : List NetEvent}
    (h : openConnection lib net pin clock url = (.ok connects, clock')) :
    isHttpScheme url.scheme = true ∧ ∃ host, url.hostStr = some host ∧
      ∀ e ∈ connects, ∃ ip, e = .connect host ip ∧
        (literalIp lib host = some ip ∨ pin = some (host, ip) ∨
          literalIp lib host = none ∧ (pin.filter fun p => p.1 = host) = none ∧
            ∃ addrs, net.dns clock host = .ok addrs ∧ ip ∈ addrs) := by
  unfold openConnection at h
  split at h
  · cases h
  rename_i hs
  refine ⟨by simpa using hs, ?_⟩
  split at h
  · cases h
  rename_i host hh
  refine ⟨host, hh, ?_⟩
  split at h
  · obtain ⟨h, -⟩ := Prod.mk.inj h
    rw [← Except.ok.inj h]
    intro e he; cases he
  have hmap : ∃ addrs, (clientAddrs lib net pin clock host).1 = .ok addrs ∧ connects = addrs.map (.connect host) := by
    split at h
    · cases h
    · cases h
    · rename_i addrs c _ ha
      obtain ⟨h, -⟩ := Prod.mk.inj h
      exact ⟨addrs, by rw [ha], (Except.ok.inj h).symm⟩
  obtain ⟨addrs, ha, rfl⟩ := hmap
  intro e he
  obtain ⟨ip, hip, rfl⟩ := List.mem_map.1 he
  refine ⟨ip, rfl, ?_⟩
  unfold clientAddrs at ha
  split at ha
  · rename_i lit hl
    rw [← Except.ok.inj ha, List.mem_singleton] at hip
    rw [hip]; exact Or.inl hl
  · rename_i hl
    split at ha
    · rename_i p hp
      rw [← Except.ok.inj ha, List.mem_singleton] at hip
      obtain ⟨hpin, hph⟩ := Option.filter_eq_some_iff.1 hp
      refine Or.inr (Or.inl ?_)
      rw [hpin, hip, ← of_decide_eq_true hph]
    · rename_i hp
      exact Or.inr (Or.inr ⟨hl, hp, addrs, ha, hip⟩)

/-- A redirect that the policy follows leads to an http(s) host that is not blocked. -/
theorem redirectPolicy_ok {clock : ℕ} {previous : List Url} {target : Url}
    (h : (redirectPolicy lib net clock previous target).1 = .ok ()) :
    isHttpScheme target.scheme = true ∧ isBlockedHost lib target = false := by
  unfold redirectPolicy at h
  split at h
  · cases h
  have hv : (validateRedirectTarget lib net clock target).1 = .ok () := by
    split at h
    · cases h
    · rename_i c hc; rw [hc]
  unfold validateRedirectTarget at hv
  split at hv
  · cases hv
  rename_i hb
  unfold validateRedirectTargetBasic at hb
  split at hb
  · cases hb
  rename_i hs
  split at hb
  · cases hb
  rename_i hblocked
  exact ⟨by simpa using hs, by simpa using hblocked⟩

/-! ## The allowlist -/

namespace HttpRequestTool

theorem validateUrl_ok {allowedDomains : List Str} {rawUrl : Str}
    (h : validateUrl lib allowedDomains rawUrl = .ok url) :
    isBlockedHost lib url = false ∧ hostAllowed lib allowedDomains url = true := by
  unfold validateUrl at h
  simp only at h
  split at h
  · cases h
  split at h
  · cases h
  split at h
  · cases h
  split at h
  · cases h
  split at h
  · cases h
  split at h
  · cases h
  rename_i hb
  split at h
  · cases h
  rename_i ha
  obtain rfl := Except.ok.inj h
  exact ⟨by simpa using hb, by simpa using ha⟩

theorem start_ok {allowedDomains : List Str} {args : Args} {s : Sending}
    (h : start lib net allowedDomains args = .ok s) :
    ∃ url, isBlockedHost lib url = false ∧ hostAllowed lib allowedDomains url = true ∧
      ∃ pinned clock, resolveAndCheckHost lib net 0 url = (.ok pinned, clock) ∧ s = .first pinned clock url := by
  unfold start at h
  split at h
  · cases h
  split at h
  · cases h
  rename_i parsed hv
  obtain ⟨hb, ha⟩ := validateUrl_ok hv
  split at h
  · cases h
  rename_i pinned clock hr
  simp only at h
  split at h
  · cases h
  split at h
  · cases h
  exact ⟨parsed, hb, ha, pinned, clock, hr, (Except.ok.inj h).symm⟩

variable (lib net) in
/-- A redirect that the policy follows leads to a host on the list. -/
def FollowsAllowed (allowedDomains : List Str) (pin : Option (Str × IpAddr)) (st : ClientState)
    (reply : Reply) : Prop :=
  ∀ url target, st.phase = .contacting url → reply.redirectTarget = some target →
    (redirectPolicy lib net (openConnection lib net pin st.clock url).2 (st.previous ++ [url]) target).1 = .ok () →
    hostAllowed lib allowedDomains target = true

variable (lib) in
/-- The client sent requests to listed hosts only, and is about to contact one. -/
def Listed (allowedDomains : List Str) (st : ClientState) : Prop :=
  (∀ url, st.phase = .contacting url → hostAllowed lib allowedDomains url = true) ∧
    ∀ url, .request url ∈ st.events → hostAllowed lib allowedDomains url = true

theorem not_request_of_connect {connects : List NetEvent} {clock clock' : ℕ} {url target : Url}
    (h : openConnection lib net pin clock url = (.ok connects, clock')) : .request target ∉ connects := by
  intro hmem
  obtain ⟨-, host, -, hall⟩ := openConnection_connects h
  obtain ⟨ip, he, -⟩ := hall _ hmem
  cases he

theorem clientStep_listed {allowedDomains : List Str} (st : ClientState) (reply : Reply)
    (hinv : Listed lib allowedDomains st) (hcond : FollowsAllowed lib net allowedDomains pin st reply) :
    Listed lib allowedDomains (clientStep lib net pin st reply) := by
  obtain ⟨hphase, hevents⟩ := hinv
  cases hp : st.phase with
  | done result => rw [clientStep_done hp]; exact ⟨hphase, hevents⟩
  | contacting url =>
    have hurl := hphase url hp
    rcases clientStep_cases lib net pin hp reply with
      ⟨e, clock, -, hev, hdone⟩ | ⟨connects, clock, sent, hopen, hev, hsent, hnext⟩
    · refine ⟨fun target ht => ?_, fun target ht => ?_⟩
      · rw [hdone] at ht; cases ht
      · rw [hev] at ht; exact hevents target ht
    · refine ⟨fun target ht => ?_, fun target ht => ?_⟩
      · rcases hnext with ⟨result, hdone⟩ | ⟨target', hc, hr, hpol⟩
        · rw [hdone] at ht; cases ht
        · rw [hc] at ht
          obtain rfl := Phase.contacting.inj ht
          exact hcond url target' hp hr (by rw [hopen]; exact hpol)
      · rw [hev, List.mem_append, List.mem_append] at ht
        rcases ht with (ht | ht) | ht
        · exact hevents target ht
        · exact absurd ht (not_request_of_connect hopen)
        · obtain rfl := NetEvent.request.inj (hsent _ ht)
          exact hurl

/-- **Requests go to listed hosts**, in every run in which the followed redirects do. -/
theorem execute_hosts_allowed (lib : NetLib) (net : Network) (allowedDomains : List Str) (args : Args)
    (replies : List Reply)
    (hmeet : ∀ s, start lib net allowedDomains args = .ok s →
      StepsMeet (clientStep lib net s.pin) (FollowsAllowed lib net allowedDomains s.pin) s.state replies) :
    ∀ url, .request url ∈ (execute lib net allowedDomains args replies).1 →
      hostAllowed lib allowedDomains url = true := by
  intro url hmem
  unfold execute at hmem
  cases hs : start lib net allowedDomains args with
  | error e => rw [hs] at hmem; cases hmem
  | ok s =>
    rw [hs] at hmem
    obtain ⟨first, -, hallowed, pinned, clock, -, rfl⟩ := start_ok hs
    have hinit : Listed lib allowedDomains (Sending.first pinned clock first).state := by
      refine ⟨fun url hp => ?_, fun url he => by cases he⟩
      obtain rfl := Phase.contacting.inj hp
      exact hallowed
    exact (run_invariant clientStep_listed replies _ hinit (hmeet _ hs)).2 url hmem

/-! A listed site that redirects, first within the site and then away from it. -/

def siteUrl : Url :=
  ⟨"https".toList, some "api.example.com".toList, "https://api.example.com/".toList,
    fun _ _ h => by cases h; rfl⟩

def otherUrl : Url :=
  ⟨"https".toList, some "other.example.net".toList, "https://other.example.net/".toList,
    fun _ _ h => by cases h; rfl⟩

/-- The libraries, as they behave on the two sites. -/
def siteLib : NetLib where
  parseUrl text :=
    if text = siteUrl.text then .ok siteUrl
    else if text = otherUrl.text then .ok otherUrl
    else .error "relative URL without a base".toList
  parseIp _ := none
  showIp _ := []
  toLowercase := List.map Char.toLower
  toUppercase := List.map Char.toUpper
  validMethod method := method = "GET".toList
  showClientError _ := []

def publicIp : IpAddr := .v4 ⟨93, 184, 216, 34⟩

def steadyNet : Network := ⟨fun _ _ => .ok [publicIp], false, .ok ()⟩

def siteArgs : Args := ⟨some siteUrl.text, some "get".toList⟩

theorem execute_hosts_allowed_same_site :
    .request siteUrl ∈ (execute siteLib steadyNet ["api.example.com".toList] siteArgs
      [.response 302 (some siteUrl), .response 200 none]).1 ∧
    ∀ url, .request url ∈ (execute siteLib steadyNet ["api.example.com".toList] siteArgs
      [.response 302 (some siteUrl), .response 200 none]).1 →
      hostAllowed siteLib ["api.example.com".toList] url = true := by
  refine ⟨by decide, execute_hosts_allowed siteLib steadyNet _ siteArgs _ fun s _ => ?_⟩
  refine ⟨fun url target _ hr _ => ?_, fun url target _ hr _ => ?_, trivial⟩
  · cases hr; decide
  · cases hr

/-- A redirect takes the request to a host that is not on the list. -/
theorem execute_leaves_allowlist :
    ¬ ∀ (lib : NetLib) (net : Network) (allowedDomains : List Str) (args : Args) (replies : List Reply) (url : Url),
      .request url ∈ (execute lib net allowedDomains args replies).1 →
        hostAllowed lib allowedDomains url = true := by
  intro h
  have hother := h siteLib steadyNet ["api.example.com".toList] siteArgs
    [.response 302 (some otherUrl), .response 200 none] otherUrl (by decide)
  revert hother
  decide

end HttpRequestTool

/-! ## Private addresses -/

/-- A literal address that passes `isBlockedHost` is public. -/
theorem literalIp_public {host : Str} {ip : IpAddr} (hs : isHttpScheme url.scheme = true)
    (hh : url.hostStr = some host) (hb : isBlockedHost lib url = false) (hl : literalIp lib host = some ip) :
    isPrivateOrLocalIp ip = false := by
  unfold isBlockedHost at hb
  rw [hh] at hb
  simp only [url.host_lower hs host hh] at hb
  split at hb
  · cases hb
  · rw [hl] at hb; exact hb

/-- The address that is pinned was checked. -/
theorem resolveAndCheckHost_public {clock clock' : ℕ} {host : Str} {ip : IpAddr}
    (h : resolveAndCheckHost lib net clock url = (.ok (some (host, ip)), clock')) :
    isPrivateOrLocalIp ip = false := by
  unfold resolveAndCheckHost at h
  split at h
  · cases h
  split at h
  · cases h
  split at h
  · split at h <;> cases h
  · rename_i addrs c _
    split at h
    · cases h
    · rename_i hfind
      obtain ⟨hh, -⟩ := Prod.mk.inj h
      obtain ⟨ip', hip, heq⟩ := Option.map_eq_some_iff.1 (Except.ok.inj hh)
      obtain ⟨-, rfl⟩ := Prod.mk.inj heq
      have hnone := List.find?_eq_none.1 hfind ip' (List.mem_of_head? hip)
      simpa using hnone

variable (lib net) in
/-- If the client is about to look a host up itself, the answer holds public addresses only. -/
def ClientLookupPublic (pin : Option (Str × IpAddr)) (st : ClientState) (_ : Reply) : Prop :=
  ∀ url host addrs, st.phase = .contacting url → isHttpScheme url.scheme = true → url.hostStr = some host →
    literalIp lib host = none → (pin.filter fun p => p.1 = host) = none → net.dns st.clock host = .ok addrs →
    ∀ ip ∈ addrs, isPrivateOrLocalIp ip = false

/-- Connections to public addresses only. -/
def ConnectsPublic (events : List NetEvent) : Prop :=
  ∀ host ip, .connect host ip ∈ events → isPrivateOrLocalIp ip = false

variable (lib) in
/-- The URL about to be contacted passed `isBlockedHost`. -/
def NextUnblocked (st : ClientState) : Prop :=
  ∀ url, st.phase = .contacting url → isBlockedHost lib url = false

theorem clientStep_unblocked (hnext : NextUnblocked lib st) (reply : Reply) :
    NextUnblocked lib (clientStep lib net pin st reply) := by
  intro target ht
  cases hp : st.phase with
  | done result => rw [clientStep_done hp] at ht; exact hnext target ht
  | contacting url =>
    rcases clientStep_cases lib net pin hp reply with
      ⟨e, clock, -, -, hdone⟩ | ⟨connects, clock, sent, -, -, -, ⟨result, hdone⟩ | ⟨target', hc, -, hpol⟩⟩
    · rw [hdone] at ht; cases ht
    · rw [hdone] at ht; cases ht
    · rw [hc] at ht
      obtain rfl := Phase.contacting.inj ht
      exact (redirectPolicy_ok hpol).2

/-- Without a proxy, every address of the client's own lookup is connected to. -/
theorem openConnection_lookup {clock : ℕ} {host : Str} {ip : IpAddr} {addrs : List IpAddr}
    (hproxy : net.proxy = false) (hs : isHttpScheme url.scheme = true) (hh : url.hostStr = some host)
    (hl : literalIp lib host = none) (hp : (pin.filter fun p => p.1 = host) = none)
    (hd : net.dns clock host = .ok addrs) (hip : ip ∈ addrs) :
    openConnection lib net pin clock url = (.ok (addrs.map (.connect host)), clock + 1) := by
  have haddrs : clientAddrs lib net pin clock host = (.ok addrs, clock + 1) := by
    unfold clientAddrs; rw [hl]; simp only; rw [hp, hd]
  unfold openConnection
  rw [hh, hproxy, hs]
  simp only [Bool.not_true, Bool.false_eq_true, if_false]
  rw [haddrs]
  cases addrs with
  | nil => cases hip
  | cons a addrs => rfl

theorem clientStep_public_iff (hproxy : net.proxy = false)
    (hpin : ∀ host ip, pin = some (host, ip) → isPrivateOrLocalIp ip = false) (hnext : NextUnblocked lib st)
    (reply : Reply) :
    ConnectsPublic (clientStep lib net pin st reply).events ↔
      ConnectsPublic st.events ∧ ClientLookupPublic lib net pin st reply := by
  cases hp : st.phase with
  | done result =>
    rw [clientStep_done hp]
    refine ⟨fun h => ⟨h, fun url host addrs hc => ?_⟩, fun h => h.1⟩
    rw [hp] at hc; cases hc
  | contacting url =>
    rcases clientStep_cases lib net pin hp reply with
      ⟨e, clock, hopen, hev, -⟩ | ⟨connects, clock, sent, hopen, hev, hsent, -⟩
    · rw [hev]
      refine ⟨fun h => ⟨h, fun url' host addrs hc hs hh hl hpn hd ip hip => ?_⟩, fun h => h.1⟩
      rw [hp] at hc
      obtain rfl := Phase.contacting.inj hc
      have := openConnection_lookup hproxy hs hh hl hpn hd hip
      rw [hopen] at this; cases this
    · rw [hev]
      constructor
      · intro h
        refine ⟨fun host ip hm => h host ip (by simp [hm]), fun url' host addrs hc hs hh hl hpn hd ip hip => ?_⟩
        rw [hp] at hc
        obtain rfl := Phase.contacting.inj hc
        have hopen' := openConnection_lookup hproxy hs hh hl hpn hd hip
        rw [hopen] at hopen'
        obtain ⟨hconn, -⟩ := Prod.mk.inj hopen'
        have hmem : NetEvent.connect host ip ∈ connects := by
          rw [Except.ok.inj hconn]; exact List.mem_map_of_mem hip
        exact h host ip (by simp [hmem])
      · rintro ⟨hold, hlook⟩ host ip hm
        obtain ⟨hs, host', hh, hall⟩ := openConnection_connects hopen
        rw [List.mem_append, List.mem_append] at hm
        rcases hm with (hm | hm) | hm
        · exact hold host ip hm
        · obtain ⟨ip', heq, hsrc⟩ := hall _ hm
          obtain ⟨rfl, rfl⟩ := NetEvent.connect.inj heq
          rcases hsrc with hl | hpn | ⟨hl, hpn, addrs, hd, hip⟩
          · exact literalIp_public hs hh (hnext url hp) hl
          · exact hpin _ _ hpn
          · exact hlook url host addrs hp hs hh hl hpn hd ip hip
        · cases hsent _ hm

theorem run_public_iff (hproxy : net.proxy = false)
    (hpin : ∀ host ip, pin = some (host, ip) → isPrivateOrLocalIp ip = false) :
    ∀ (replies : List Reply) (st : ClientState), NextUnblocked lib st →
      (ConnectsPublic (runSteps (clientStep lib net pin) st replies).events ↔
        ConnectsPublic st.events ∧
          StepsMeet (clientStep lib net pin) (ClientLookupPublic lib net pin) st replies) := by
  intro replies
  induction replies with
  | nil => intro st _; exact ⟨fun h => ⟨h, trivial⟩, fun h => h.1⟩
  | cons reply replies ih =>
    intro st hnext
    have hnext' : NextUnblocked lib (clientStep lib net pin st reply) := clientStep_unblocked hnext reply
    have hrest := ih _ hnext'
    have hone := clientStep_public_iff hproxy hpin hnext reply
    show ConnectsPublic (runSteps (clientStep lib net pin) (clientStep lib net pin st reply) replies).events ↔ _
    rw [hrest, hone, and_assoc]
    rfl

/-- A client that starts at a host that is not blocked, with a checked address pinned or none. -/
theorem sending_public_iff (clock : ℕ) (hproxy : net.proxy = false) (hb : isBlockedHost lib url = false)
    (hpin : ∀ host ip, pin = some (host, ip) → isPrivateOrLocalIp ip = false) (replies : List Reply) :
    ConnectsPublic ((Sending.first pin clock url).run lib net replies).events ↔
      StepsMeet (clientStep lib net pin) (ClientLookupPublic lib net pin) (Sending.first pin clock url).state
        replies := by
  have hnext : NextUnblocked lib (Sending.first pin clock url).state := by
    intro url' h
    obtain rfl := Phase.contacting.inj h
    exact hb
  have hempty : ConnectsPublic (Sending.first pin clock url).state.events := fun host ip hm => by cases hm
  exact (run_public_iff hproxy hpin replies _ hnext).trans (and_iff_right hempty)

theorem WebFetchTool.start_ok {arg : Option Str} {s : Sending} (h : WebFetchTool.start lib net arg = .ok s) :
    ∃ url, isBlockedHost lib url = false ∧
      ∃ pinned clock, s = .first pinned clock url ∧
        ∀ host ip, pinned = some (host, ip) → isPrivateOrLocalIp ip = false := by
  unfold WebFetchTool.start at h
  split at h
  · cases h
  split at h
  · cases h
  rename_i parsed hparse
  split at h
  · cases h
  split at h
  · cases h
  rename_i hb
  split at h
  · cases h
  rename_i pinned clock hr
  refine ⟨parsed, by simpa using hb, ?_⟩
  split at h
  · exact ⟨none, clock, (Except.ok.inj h).symm, fun host ip hn => by cases hn⟩
  · refine ⟨pinned, clock, (Except.ok.inj h).symm, fun host ip hn => ?_⟩
    rw [hn] at hr
    exact resolveAndCheckHost_public hr

/-- **Connections go to public addresses exactly when the client's own lookups do**, without
a proxy, for both tools. -/
theorem execute_connects_public_iff (lib : NetLib) (net : Network) (hproxy : net.proxy = false)
    (allowedDomains : List Str) (args : HttpRequestTool.Args) (url : Option Str) (replies : List Reply) :
    (ConnectsPublic (HttpRequestTool.execute lib net allowedDomains args replies).1 ↔
      ∀ s, HttpRequestTool.start lib net allowedDomains args = .ok s →
        StepsMeet (clientStep lib net s.pin) (ClientLookupPublic lib net s.pin) s.state replies) ∧
    (ConnectsPublic (WebFetchTool.execute lib net url replies).1 ↔
      ∀ s, WebFetchTool.start lib net url = .ok s →
        StepsMeet (clientStep lib net s.pin) (ClientLookupPublic lib net s.pin) s.state replies) := by
  have hnone : ConnectsPublic [] := fun host ip hm => by cases hm
  constructor
  · unfold HttpRequestTool.execute
    cases hs : HttpRequestTool.start lib net allowedDomains args with
    | error e => exact ⟨fun _ s h => (by cases h), fun _ => hnone⟩
    | ok s =>
      obtain ⟨first, hb, -, pinned, clock, hr, rfl⟩ := HttpRequestTool.start_ok hs
      have hpin : ∀ host ip, pinned = some (host, ip) → isPrivateOrLocalIp ip = false := by
        intro host ip hn
        rw [hn] at hr
        exact resolveAndCheckHost_public hr
      have hiff := sending_public_iff clock hproxy hb hpin replies
      refine ⟨fun h s h' => ?_, fun h => hiff.2 (h _ rfl)⟩
      rw [← Except.ok.inj h']
      exact hiff.1 h
  · unfold WebFetchTool.execute
    cases hs : WebFetchTool.start lib net url with
    | error e => exact ⟨fun _ s h => (by cases h), fun _ => hnone⟩
    | ok s =>
      obtain ⟨first, hb, pinned, clock, rfl, hpin⟩ := WebFetchTool.start_ok hs
      have hiff := sending_public_iff clock hproxy hb hpin replies
      refine ⟨fun h s h' => ?_, fun h => hiff.2 (h _ rfl)⟩
      rw [← Except.ok.inj h']
      exact hiff.1 h

open HttpRequestTool

theorem execute_connects_public_steady :
    .connect "other.example.net".toList publicIp ∈ (WebFetchTool.execute siteLib steadyNet (some siteUrl.text)
      [.response 302 (some otherUrl), .response 200 none]).1 ∧
    ConnectsPublic (WebFetchTool.execute siteLib steadyNet (some siteUrl.text)
      [.response 302 (some otherUrl), .response 200 none]).1 := by
  have hanswer : ∀ pin st reply, ClientLookupPublic siteLib steadyNet pin st reply := by
    intro pin st reply url host addrs _ _ _ _ _ hd ip hip
    rw [← Except.ok.inj hd, List.mem_singleton] at hip
    rw [hip]; decide
  refine ⟨by decide, (execute_connects_public_iff siteLib steadyNet rfl [] siteArgs _ _).2.2 fun s _ => ?_⟩
  exact ⟨hanswer _ _ _, hanswer _ _ _, trivial⟩

/-- The third lookup, the client's own after a redirect, answers with a loopback address. -/
def rebindingNet : Network :=
  ⟨fun k _ => if k = 2 then .ok [.v4 ⟨127, 0, 0, 1⟩] else .ok [publicIp], false, .ok ()⟩

theorem execute_connects_private :
    ¬ (∀ (lib : NetLib) (net : Network) (_ : net.proxy = false) (allowedDomains : List Str) (args : Args)
        (url : Option Str) (replies : List Reply),
        ConnectsPublic (HttpRequestTool.execute lib net allowedDomains args replies).1 ∧
          ConnectsPublic (WebFetchTool.execute lib net url replies).1) := by
  intro h
  have hweb := (h siteLib rebindingNet rfl [] siteArgs (some siteUrl.text)
    [.response 302 (some otherUrl), .response 200 none]).2
  have hpublic := hweb "other.example.net".toList (.v4 ⟨127, 0, 0, 1⟩) (by decide)
  revert hpublic
  decide

end Zeptoclaw
