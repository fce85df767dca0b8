import AshA2A.A2ATransport.PushDelivery
import AshA2A.Proofs.PublicAddress

/-! Where a delivery connects to: to an admitted public address that is spelled in the URL, as long as
the address is an IPv4 one. -/

namespace AshA2A.A2ATransport.PushDelivery
open WebhookPolicy

/-! ## Admission -/

section Admission
variable {inet : Inet} {url : Term} {opts : WebhookPolicy.Options} {uri : Uri} {addresses : List Ip} {ip : Ip}

/-- An entry of the allowed ranges contains the address. -/
def Allowed (inet : Inet) (cidrs : CidrList) (ip : Ip) : Prop :=
  ∃ list, cidrs = .entries list ∧ ∃ entry ∈ list, ∃ cidr, parseCidr inet entry = some cidr ∧ inCidr ip cidr = true

theorem parseEntries_mem {list : List Term} {acc allow : List Cidr} (parsed : parseEntries inet list acc = .ok allow)
    {cidr : Cidr} (member : cidr ∈ allow) : cidr ∈ acc ∨ ∃ entry ∈ list, parseCidr inet entry = some cidr := by
  induction list generalizing acc with
  | nil =>
    cases parsed
    exact .inl member
  | cons entry rest ih =>
    rw [parseEntries] at parsed
    split at parsed
    · rename_i first read
      rcases ih parsed with before | ⟨later, among, found⟩
      · rcases List.mem_cons.mp before with rfl | before
        · exact .inr ⟨entry, List.mem_cons_self, read⟩
        · exact .inl before
      · exact .inr ⟨later, List.mem_cons_of_mem _ among, found⟩
    · cases parsed

theorem parseCidrs_allowed {cidrs : CidrList} {allow : List Cidr} (parsed : parseCidrs inet cidrs = .ok allow)
    (within : allow.any (inCidr ip) = true) : Allowed inet cidrs ip := by
  obtain ⟨cidr, member, contains⟩ := List.any_eq_true.mp within
  cases cidrs with
  | other term => cases parsed
  | entries list =>
    rcases parseEntries_mem parsed member with none | ⟨entry, among, read⟩
    · cases none
    · exact ⟨list, rfl, entry, among, cidr, read, contains⟩

/-- Every admitted address is public, allowed, or one of those that the ranges leave out. -/
theorem checkAddresses_ok {allow : List Cidr} (checked : checkAddresses inet addresses allow = .ok ())
    (member : ip ∈ addresses) (known : NonPublic ip) : allow.any (inCidr ip) = true ∨ Overlooked ip := by
  unfold checkAddresses at checked
  split at checked
  · rename_i none
    have passed := List.find?_eq_none.mp none ip member
    rcases nonPublic_blocked known with blocked | overlooked
    · left
      simpa [refusedAddress, blocked] using passed
    · exact .inr overlooked
  · cases checked

theorem parse_ok {text host : String} (parsed : parse inet text = .ok (uri, host)) :
    inet.newUri text = .ok uri ∧ uri.host = some host := by
  unfold parse at parsed
  split at parsed
  · rename_i found read
    split at parsed
    · rename_i name named
      split_ifs at parsed
      cases parsed
      exact ⟨read, named⟩
    · cases parsed
  · cases parsed

theorem resolve_ne_nil {host : String} {resolver : Resolver} (resolved : resolve inet host resolver = .ok addresses) :
    addresses ≠ [] := by
  unfold resolve at resolved
  dsimp only at resolved
  split at resolved
  · cases resolved
    exact List.cons_ne_nil _ _
  · split_ifs at resolved with empty
    cases resolved
    exact empty

/-- What admission says of the URL and of the addresses. -/
structure Admits (inet : Inet) (opts : WebhookPolicy.Options) (uri : Uri) (addresses : List Ip) : Prop where
  read : ∃ text, inet.newUri text = .ok uri
  hosted : uri.host.isSome = true
  resolved : addresses ≠ []
  public_ : ∀ ip ∈ addresses, NonPublic ip → Allowed inet opts.allowCidrs ip ∨ Overlooked ip

theorem admitUrl_ok (admitted : admitUrl inet url opts = .ok ⟨uri, addresses⟩) : Admits inet opts uri addresses := by
  cases url with
  | binary text =>
    simp only [admitUrl, bind_ok_iff] at admitted
    obtain ⟨⟨found, host⟩, parsed, _, _, allow, ranges, answers, resolved, _, checked, same⟩ := admitted
    cases same
    obtain ⟨read, hosted⟩ := parse_ok parsed
    refine ⟨⟨text, read⟩, Option.isSome_iff_exists.mpr ⟨host, hosted⟩, resolve_ne_nil resolved, ?_⟩
    intro ip member known
    exact (checkAddresses_ok checked member known).imp (parseCidrs_allowed ranges) id
  | _ => cases admitted

end Admission

/-! ## One attempt -/

/-- The connection goes to an address that was admitted, which is public or allowed, and the URL is the
configured one with this address for its host. -/
def Target (inet : Inet) (config : Config) (opts : Options) (resolver : Resolver) (url : String) : Prop :=
  ∃ uri addresses ip, admitUrl inet config.url (policy opts resolver) = .ok ⟨uri, addresses⟩ ∧ ip ∈ addresses ∧
    (NonPublic ip → Allowed inet opts.allowCidrs ip) ∧ url = uri.recompose (Uri.bracketed (inet.ntoa ip))

/-- What is relied on of the language: a path behind a host is empty or begins with a slash, and no
printed address has a bracket in it. -/
structure Lawful (inet : Inet) : Prop where
  rooted : ∀ text uri, inet.newUri text = .ok uri → uri.host.isSome = true → ∀ path ∈ uri.path, Uri.Rooted path
  unbracketed : ∀ ip, '[' ∉ (inet.ntoa ip).toList

theorem recompose_inj {uri : Uri} {first second : String} (same : uri.recompose first = uri.recompose second) :
    first = second := by
  simpa only [Uri.recompose, String.append_left_inj, String.append_right_inj] using same

section Attempt
variable {client : Client} {config : Config} {body deliveryId : String} {opts : Options} {surroundings : Surroundings}
  {uri : Uri} {ip : Ip} {rest : List Ip}

/-- An IPv6 address is put in brackets twice. -/
theorem ipHost_misspelled (lawful : Lawful client.toInet) (v6 : ip.isV4 = false) (other : Ip) :
    Uri.bracketed (ipHost client.toInet ip) ≠ Uri.bracketed (client.ntoa other) := by
  have host : ipHost client.toInet ip = "[" ++ client.ntoa ip ++ "]" := by
    cases ip with
    | v4 => cases v6
    | v6 => rfl
  have free := lawful.unbracketed other
  intro same
  have spelled := congrArg String.toList same
  rw [host] at spelled
  unfold Uri.bracketed at spelled
  split at spelled
  case isTrue =>
    have twice : '[' :: '[' :: ((client.ntoa ip).toList ++ [']', ']']) =
        (if ':' ∈ (client.ntoa other).toList then "[" ++ client.ntoa other ++ "]" else client.ntoa other).toList := by
      simpa using spelled
    split at twice
    · have inner : '[' :: ((client.ntoa ip).toList ++ [']', ']']) = (client.ntoa other).toList ++ [']'] := by
        simpa using twice
      rcases List.cons_eq_append_iff.mp inner with ⟨_, last⟩ | ⟨tail, starts, _⟩
      · cases last
      · exact free (starts ▸ List.mem_cons_self)
    · exact free (twice ▸ List.mem_cons_self)
  case isFalse plain =>
    split at spelled
    case isTrue colon => exact plain (by simp_all)
    case isFalse => exact free (by rw [← spelled]; simp)

theorem post_admitted (lawful : Lawful client.toInet)
    (admitted : admitUrl client.toInet config.url (policy opts surroundings.resolver) = .ok ⟨uri, ip :: rest⟩) :
    post client config body deliveryId opts surroundings =
      (some (requestTo client (uri.recompose (Uri.bracketed (ipHost client.toInet ip))) uri config body deliveryId opts
        surroundings.timestamp), surroundings.response.outcome) := by
  have facts := admitUrl_ok admitted
  obtain ⟨text, read⟩ := facts.read
  have rooted := lawful.rooted text uri read facts.hosted
  rw [post, admitted]
  simp only [request, Uri.print, if_pos rooted]

/-- An attempt connects where it should exactly when the first admitted address is an IPv4 one. -/
theorem post_target_iff (lawful : Lawful client.toInet) :
    (∀ request, (post client config body deliveryId opts surroundings).1 = some request →
      Target client.toInet config opts surroundings.resolver request.url) ↔
    ∀ uri ip rest, admitUrl client.toInet config.url (policy opts surroundings.resolver) = .ok ⟨uri, ip :: rest⟩ →
      ip.isV4 = true := by
  constructor
  · intro targets uri ip rest admitted
    by_contra v6
    rw [Bool.not_eq_true] at v6
    obtain ⟨found, addresses, other, again, _, _, spelled⟩ :=
      targets _ (congrArg Prod.fst (post_admitted lawful admitted))
    cases admitted.symm.trans again
    exact ipHost_misspelled lawful v6 other (recompose_inj spelled)
  · intro only request sent
    cases admitted : admitUrl client.toInet config.url (policy opts surroundings.resolver) with
    | error refusal =>
      rw [post, admitted] at sent
      cases sent
    | ok result =>
      obtain ⟨uri, addresses⟩ := result
      have facts := admitUrl_ok admitted
      cases addresses with
      | nil => exact absurd rfl facts.resolved
      | cons ip rest =>
        rw [post_admitted lawful admitted] at sent
        cases sent
        have v4 := only uri ip rest admitted
        refine ⟨uri, ip :: rest, ip, admitted, List.mem_cons_self, fun known => ?_, ?_⟩
        · rcases facts.public_ ip List.mem_cons_self known with allowed | overlooked
          · exact allowed
          · cases overlooked <;> cases v4
        · cases ip with
          | v4 => rfl
          | v6 => cases v4

/-- The attempt is followed by another one. -/
def Again (inet : Inet) (config : Config) (opts : Options) (surroundings : Nat → Surroundings) (m : Nat) : Prop :=
  (∃ admitted, admitUrl inet config.url (policy opts (surroundings m).resolver) = .ok admitted) ∧
    (∀ code, (surroundings m).response = .status code → ¬ (200 ≤ code ∧ code ≤ 299)) ∧ m < opts.maxAttempts

theorem retried_iff (lawful : Lawful client.toInet) {surroundings : Nat → Surroundings} {m : Nat} :
    retried (post client config body deliveryId opts (surroundings m)).2 m opts.maxAttempts = true ↔
      Again client.toInet config opts surroundings m := by
  cases admitted : admitUrl client.toInet config.url (policy opts (surroundings m).resolver) with
  | error refusal => simp [post, admitted, retried, Again]
  | ok result =>
    obtain ⟨uri, addresses⟩ := result
    cases addresses with
    | nil => exact absurd rfl (admitUrl_ok admitted).resolved
    | cons ip rest =>
      rw [post_admitted lawful admitted]
      cases answer : (surroundings m).response with
      | exception message => simp [Again, admitted, answer, Response.outcome, retried]
      | status code =>
        by_cases success : 200 ≤ code ∧ code ≤ 299
        · simp [Again, admitted, answer, Response.outcome, retried, success]
        · simp [Again, admitted, answer, Response.outcome, if_neg success, retried]
          omega

/-- The attempts, and when each of them is made. -/
theorem mem_attempt_iff (surroundings : Nat → Surroundings) (n : Nat) (made : Attempt) :
    made ∈ attempt client config body deliveryId opts surroundings n ↔
      ∃ k, n ≤ k ∧ (∀ m, n ≤ m → m < k →
        retried (post client config body deliveryId opts (surroundings m)).2 m opts.maxAttempts = true) ∧
      made = ⟨k, (post client config body deliveryId opts (surroundings k)).1,
        (post client config body deliveryId opts (surroundings k)).2⟩ := by
  fun_induction attempt client config body deliveryId opts surroundings n with
  | case1 n request outcome sent again ih =>
    rw [List.mem_cons, ih]
    have here : ⟨n, request, outcome⟩ = (⟨n, (post client config body deliveryId opts (surroundings n)).1,
        (post client config body deliveryId opts (surroundings n)).2⟩ : A2ATransport.PushDelivery.Attempt) := by rw [sent]
    have goes : retried (post client config body deliveryId opts (surroundings n)).2 n opts.maxAttempts = true := by
      rw [sent]
      exact again
    constructor
    · rintro (rfl | ⟨k, later, before, rfl⟩)
      · exact ⟨n, Nat.le_refl n, fun m low high => absurd high (by omega), here⟩
      · refine ⟨k, by omega, fun m low high => ?_, rfl⟩
        rcases Nat.eq_or_lt_of_le low with rfl | low
        · exact goes
        · exact before m low high
    · rintro ⟨k, low, before, rfl⟩
      rcases Nat.eq_or_lt_of_le low with rfl | low
      · exact .inl here.symm
      · exact .inr ⟨k, low, fun m first last => before m (by omega) last, rfl⟩
  | case2 n request outcome sent halts =>
    have here : ⟨n, request, outcome⟩ = (⟨n, (post client config body deliveryId opts (surroundings n)).1,
        (post client config body deliveryId opts (surroundings n)).2⟩ : A2ATransport.PushDelivery.Attempt) := by rw [sent]
    rw [List.mem_singleton]
    constructor
    · rintro rfl
      exact ⟨n, Nat.le_refl n, fun m low high => absurd high (by omega), here⟩
    · rintro ⟨k, low, before, rfl⟩
      rcases Nat.eq_or_lt_of_le low with rfl | low
      · exact here.symm
      · have goes := before n (Nat.le_refl n) low
        rw [sent] at goes
        exact absurd goes halts

end Attempt

/-! ## A whole delivery -/

/-- The delivery comes to its n-th attempt. -/
def Reached (inet : Inet) (config : Config) (opts : Options) (surroundings : Nat → Surroundings) (n : Nat) : Prop :=
  1 ≤ n ∧ ∀ m, 1 ≤ m → m < n → Again inet config opts surroundings m

/-- Every connection of a delivery goes where it should exactly when the first address admitted at each
attempt is an IPv4 one. -/
theorem deliver_target_iff (client : Client) (lawful : Lawful client.toInet) (config : Config) (body : String) (seq : Nat)
    (opts : Options) (surroundings : Nat → Surroundings) :
    (∀ made ∈ deliver client config body seq opts surroundings, ∀ request, made.request = some request →
      Target client.toInet config opts (surroundings made.number).resolver request.url) ↔
    ∀ n, Reached client.toInet config opts surroundings n → ∀ uri ip rest,
      admitUrl client.toInet config.url (policy opts (surroundings n).resolver) = .ok ⟨uri, ip :: rest⟩ → ip.isV4 = true := by
  constructor
  · intro targets n ⟨first, before⟩
    have made : ⟨n, (post client config body (deliveryId config seq) opts (surroundings n)).1,
        (post client config body (deliveryId config seq) opts (surroundings n)).2⟩ ∈
        deliver client config body seq opts surroundings :=
      (mem_attempt_iff surroundings 1 _).mpr
        ⟨n, first, fun m low high => (retried_iff lawful).mpr (before m low high), rfl⟩
    exact (post_target_iff lawful).mp (targets _ made)
  · intro only made among
    obtain ⟨n, first, before, rfl⟩ := (mem_attempt_iff surroundings 1 made).mp among
    exact (post_target_iff lawful).mpr (only n ⟨first, fun m low high => (retried_iff lawful).mp (before m low high)⟩)

/-! ### A target of each family -/

private def sixth : Ip :=
  .v6 ⟨0x2606, by decide⟩ ⟨0x4700, by decide⟩ ⟨0x4700, by decide⟩ ⟨0, by decide⟩ ⟨0, by decide⟩ ⟨0, by decide⟩
    ⟨0, by decide⟩ ⟨0x1111, by decide⟩

private def fourth : Ip := .v4 ⟨93, by decide⟩ ⟨184, by decide⟩ ⟨215, by decide⟩ ⟨14, by decide⟩

private def client : Client where
  newUri text :=
    if text = "https://[2606:4700:4700::1111]/hook" then
      .ok { scheme := some "https", host := some "2606:4700:4700::1111", port := some 443, path := some "/hook" }
    else if text = "https://93.184.215.14/hook" then
      .ok { scheme := some "https", host := some "93.184.215.14", port := some 443, path := some "/hook" }
    else .error ":"
  parseAddress host :=
    if host = "2606:4700:4700::1111" then some sixth else if host = "93.184.215.14" then some fourth else none
  ntoa ip := if ip = sixth then "2606:4700:4700::1111" else if ip = fourth then "93.184.215.14" else "::"
  inspect _ := ""
  mac secret text := secret ++ text

private theorem lawful : Lawful client.toInet where
  rooted text uri read _ := by
    simp only [client] at read
    split at read
    · cases read
      simp [Uri.Rooted]
    · split at read
      · cases read
        simp [Uri.Rooted]
      · cases read
  unbracketed ip := by
    simp only [client]
    split
    · decide
    · split <;> decide

private def config (url : String) : Config := { taskId := "task", id := "config", url := .binary url }

private def failing (_ : Nat) : Surroundings := ⟨fun _ _ => none, "0", .status 503⟩

theorem deliver_target_v4 : Lawful client.toInet ∧
    ∀ made ∈ deliver client (config "https://93.184.215.14/hook") "{}" 1 {} failing, ∀ request,
      made.request = some request →
      Target client.toInet (config "https://93.184.215.14/hook") {} (failing made.number).resolver request.url := by
  refine ⟨lawful, (deliver_target_iff client lawful _ "{}" 1 {} failing).mpr fun n _ uri ip rest admitted => ?_⟩
  have one : admitUrl client.toInet (config "https://93.184.215.14/hook").url (policy {} (failing 0).resolver) =
      .ok ⟨{ scheme := some "https", host := some "93.184.215.14", port := some 443, path := some "/hook" }, [fourth]⟩ := by
    decide
  cases one.symm.trans admitted
  rfl

theorem deliver_target_v6 :
    ∃ made ∈ deliver client (config "https://[2606:4700:4700::1111]/hook") "{}" 1 {} failing,
      made.request.map Request.url = some "https://[[2606:4700:4700::1111]]/hook" ∧
      ¬ ∀ request, made.request = some request →
        Target client.toInet (config "https://[2606:4700:4700::1111]/hook") {} (failing made.number).resolver request.url := by
  have sent : (post client (config "https://[2606:4700:4700::1111]/hook") "{}" "task:config:1" {} (failing 1)).1.map
      Request.url = some "https://[[2606:4700:4700::1111]]/hook" := by decide
  have one : admitUrl client.toInet (config "https://[2606:4700:4700::1111]/hook").url (policy {} (failing 1).resolver) =
      .ok ⟨{ scheme := some "https", host := some "2606:4700:4700::1111", port := some 443, path := some "/hook" },
        [sixth]⟩ := by
    decide
  refine ⟨_, (mem_attempt_iff failing 1 _).mpr ⟨1, Nat.le_refl 1, fun m low high => absurd high (by omega), rfl⟩, sent, ?_⟩
  intro targets
  have v4 := (post_target_iff lawful).mp targets _ _ _ one
  cases v4

end AshA2A.A2ATransport.PushDelivery
