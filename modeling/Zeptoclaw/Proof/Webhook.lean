import Zeptoclaw.Proof.AcpRequest
import Zeptoclaw.Spec.Webhook

/-!
# What a webhook connection comes to

* `handleConnection_complete`: a complete request is handled as it was sent, in whatever reads it arrives, exactly if
  no read ends within a character of the body; otherwise it is refused as malformed.
* `published_iff`: a message that is published came with the token and the signature, and its sender and
  its chat are those of the configuration unless the payload is trusted.
* `framed_response_iff`: the only response whose length is the one it announces is the one for a bus that
  is closed.
-/

namespace Zeptoclaw.Webhook

open Text Utf8

/-! ## Checks -/

theorem xor_eq_zero_iff {x y : UInt8} : x ^^^ y = 0 ↔ x = y := by
  rw [← UInt8.toNat_inj, UInt8.toNat_xor, UInt8.toNat_zero, Nat.xor_eq_zero_iff, UInt8.toNat_inj]

/-- The comparison is that of the texts. -/
theorem constantTimeEq_iff {a b : Str} : constantTimeEq a b = true ↔ a = b := by
  have hzip : ∀ a b : Bytes, a.length = b.length → ((∀ xy ∈ a.zip b, xy.1 ^^^ xy.2 = 0) ↔ a = b) := by
    intro a
    induction a with
    | nil =>
      intro b hlen
      rw [List.eq_nil_of_length_eq_zero hlen.symm]
      exact ⟨fun _ => rfl, fun _ _ h => absurd h List.not_mem_nil⟩
    | cons x a ih =>
      intro b hlen
      cases b with
      | nil => cases hlen
      | cons y b =>
        rw [List.zip_cons_cons, List.forall_mem_cons, ih b (Nat.succ.inj hlen), xor_eq_zero_iff, List.cons_eq_cons]
  simp only [constantTimeEq]
  split
  · next hne =>
    refine ⟨fun h => (by cases h), fun h => absurd ?_ hne⟩
    rw [h]
  · next heq =>
    rw [decide_eq_true_iff, foldl_or_eq_zero (fun xy : UInt8 × UInt8 => xy.1 ^^^ xy.2), eq_self, true_and,
      hzip _ _ (not_not.mp heq), encode_injective.eq_iff]

/-- The request carries the token. -/
theorem validateAuth_iff {headers : List (Str × Str)} {token : Str} :
    validateAuth headers (some token) = true ↔ CarriesToken headers token := by
  unfold validateAuth CarriesToken
  simp only [List.any_eq_true, Bool.and_eq_true, constantTimeEq_iff]

/-- The first header with the name of the signature carries the signature of the body. -/
def CarriesSignature (sha256 : Bytes → Bytes) (headers : List (Str × Str)) (body headerName secret : Str) : Prop :=
  ∃ header, (headers.find? fun header => eqIgnoreAsciiCase header.1 headerName) = some header ∧
    trim header.2 = "sha256=".toList ++ hmacSha256Hex sha256 (encode secret) (encode body)

theorem validateSignature_iff {sha256 : Bytes → Bytes} {headers : List (Str × Str)} {body headerName secret : Str} :
    validateSignature sha256 headers body headerName (some secret) = true ↔
      CarriesSignature sha256 headers body headerName secret := by
  unfold validateSignature CarriesSignature
  cases headers.find? fun header => eqIgnoreAsciiCase header.1 headerName with
  | none =>
    refine ⟨fun h => (by cases h), ?_⟩
    rintro ⟨header, h, -⟩
    cases h
  | some header =>
    rw [constantTimeEq_iff]
    refine ⟨fun h => ⟨header, rfl, h⟩, ?_⟩
    rintro ⟨header', heq, h⟩
    cases heq
    exact h

/-! ## Reading -/

section Reading

variable {toUppercase : Str → Str} {headerSection body : Str} {req : ParsedRequest}

/-- A request that is complete, and fits in the buffer. -/
structure Complete (toUppercase : Str → Str) (headerSection body : Str) (req : ParsedRequest) : Prop where
  first : cutFirst blankLine (headerSection ++ blankLine) = some (headerSection, [])
  parsed : parseHeaderSection toUppercase headerSection = some req
  length : byteLen body = contentLength req.headers
  size : byteLen headerSection + 4 + byteLen body ≤ webhookBufferSize

/-- What a header section is made of that is parsed. -/
theorem parseHeaderSection_eq_some (h : parseHeaderSection toUppercase headerSection = some req) :
    ∃ requestLine others method path tail, lines headerSection = requestLine :: others ∧
      splitWhitespace requestLine = method :: path :: tail ∧
      req = ⟨toUppercase method, path, others.filterMap parseHeader, []⟩ := by
  unfold parseHeaderSection at h
  cases hlines : lines headerSection with
  | nil =>
    rw [hlines] at h
    cases h
  | cons requestLine others =>
    rw [hlines] at h
    dsimp only at h
    rcases hwords : splitWhitespace requestLine with _ | ⟨method, _ | ⟨path, tail⟩⟩
    · rw [hwords] at h
      cases h
    · rw [hwords] at h
      cases h
    · rw [hwords] at h
      exact ⟨requestLine, others, method, path, tail, rfl, hwords, (Option.some.inj h).symm⟩

theorem Complete.parseHttpRequest (h : Complete toUppercase headerSection body req) (rest : Str) :
    parseHttpRequest toUppercase (encode (headerSection ++ blankLine ++ rest)) = .ok { req with body := rest } := by
  have hcut : cutFirst blankLine (headerSection ++ blankLine ++ rest) = some (headerSection, rest) :=
    cutFirst_append (d := '\r') (p := "\n\r\n".toList) h.first rest
  obtain ⟨requestLine, others, method, path, tail, hlines, hwords, rfl⟩ := parseHeaderSection_eq_some h.parsed
  unfold Webhook.parseHttpRequest
  rw [fromUtf8_encode]
  dsimp only
  rw [hcut, Option.getD_some]
  dsimp only
  rw [hlines]
  dsimp only
  rw [hwords]

/-- What follows a whole text is one exactly if both together are. -/
theorem isUtf8_encode_append {s : Str} {part : Bytes} : IsUtf8 (encode s ++ part) ↔ IsUtf8 part := by
  constructor
  · rintro ⟨t, ht⟩
    refine ⟨lossyFrom none part, ?_⟩
    have htext := congrArg fromUtf8Lossy ht
    rw [fromUtf8Lossy, lossyFrom_encode_append, fromUtf8Lossy_encode] at htext
    rw [← htext, encode_append] at ht
    exact List.append_cancel_left ht
  · rintro ⟨t, rfl⟩
    exact ⟨s ++ t, (encode_append s t).symm⟩

/-- The loop stops when the whole request is in the buffer, and when the blank line is and the buffer is no text. -/
theorem stopsReading_iff (h : Complete toUppercase headerSection body req) {buf : Bytes}
    (hbuf : buf <+: encode (headerSection ++ blankLine ++ body)) :
    stopsReading toUppercase buf = true ↔ byteLen headerSection + 4 ≤ buf.length ∧
      ((encode (headerSection ++ blankLine ++ body)).length ≤ buf.length ∨ ¬ IsUtf8 buf) := by
  have hraw : (encode (headerSection ++ blankLine ++ body)).length = byteLen headerSection + 4 + byteLen body :=
    length_request headerSection body
  unfold stopsReading
  rw [findHeaderEnd_eq h.first hbuf, hraw]
  by_cases hlong : byteLen headerSection + 4 ≤ buf.length
  · have hhead : encode (headerSection ++ blankLine) <+: buf := by
      refine List.prefix_of_prefix_length_le (List.prefix_append _ (encode body)) (encode_append _ body ▸ hbuf) ?_
      rw [length_encode, byteLen_append, byteLen_blankLine]
      exact hlong
    obtain ⟨part, rfl⟩ := hhead
    rw [if_pos hlong, isUtf8_encode_append]
    dsimp only
    by_cases hpart : IsUtf8 part
    · obtain ⟨t, rfl⟩ := hpart
      rw [← encode_append] at hlong ⊢
      rw [h.parseHttpRequest t]
      dsimp only
      rw [decide_eq_true_iff, ← h.length]
      constructor
      · exact fun hle => ⟨by omega, Or.inl (by omega)⟩
      · rintro ⟨-, hle | hnot⟩
        · omega
        · exact absurd ⟨t, rfl⟩ hnot
    · have hnone : fromUtf8 (encode (headerSection ++ blankLine) ++ part) = none := by
        refine Option.eq_none_iff_forall_ne_some.mpr fun s hs => hpart ?_
        exact isUtf8_encode_append.mp ⟨s, fromUtf8_eq_some_iff.mp hs⟩
      unfold Webhook.parseHttpRequest
      rw [hnone]
      exact ⟨fun _ => ⟨by omega, Or.inr hpart⟩, fun _ => rfl⟩
  · rw [if_neg hlong]
    exact ⟨fun h => (by cases h), fun h => absurd h.1 hlong⟩

/-- The loop stops behind the first read after which the blank line is there, and all of the request is or the buffer
is no text. -/
def Stops (headerSection : Str) (raw buf : Bytes) : Prop :=
  byteLen headerSection + 4 ≤ buf.length ∧ (raw.length ≤ buf.length ∨ ¬ IsUtf8 buf)

theorem readLoop_reads (h : Complete toUppercase headerSection body req) (later : List Read) :
    ∀ {reads : List Bytes} {buf : Bytes}, buf ++ reads.flatten = encode (headerSection ++ blankLine ++ body) →
      reads ≠ [] → (∀ r ∈ reads, r ≠ []) → ∃ before after, reads = before ++ after ∧
        readLoop toUppercase buf (reads.map .read ++ later) = .received (buf ++ before.flatten) ∧
        Stops headerSection (encode (headerSection ++ blankLine ++ body)) (buf ++ before.flatten) ∧
        ∀ n, 0 < n → n < before.length →
          ¬ Stops headerSection (encode (headerSection ++ blankLine ++ body)) (buf ++ (reads.take n).flatten) := by
  have hsize := h.size
  rw [← length_request] at hsize
  have hheader : byteLen headerSection + 4 ≤ (encode (headerSection ++ blankLine ++ body)).length := by
    rw [length_request]
    omega
  have hstops : ∀ buf, buf <+: encode (headerSection ++ blankLine ++ body) →
      (stopsReading toUppercase buf = true ↔ Stops headerSection (encode (headerSection ++ blankLine ++ body)) buf) :=
    fun _ hbuf => stopsReading_iff h hbuf
  generalize encode (headerSection ++ blankLine ++ body) = raw at hsize hheader hstops
  intro reads
  induction reads with
  | nil => exact fun _ hne => absurd rfl hne
  | cons r reads ih =>
    intro buf hflat _ hne
    obtain ⟨b, bytes, rfl⟩ := List.exists_cons_of_ne_nil (hne r List.mem_cons_self)
    have hlen := congrArg List.length hflat
    rw [List.flatten_cons, List.length_append, List.length_append, List.length_cons] at hlen
    have htake : (b :: bytes).take (webhookBufferSize - buf.length) = b :: bytes :=
      List.take_of_length_le (by rw [List.length_cons]; omega)
    rw [List.flatten_cons, ← List.append_assoc] at hflat
    rw [List.map_cons, List.cons_append, readLoop, if_neg (by omega)]
    dsimp only
    rw [htake]
    by_cases hstop : Stops headerSection raw (buf ++ b :: bytes)
    · rw [if_pos ((hstops _ ⟨reads.flatten, hflat⟩).mpr hstop)]
      refine ⟨[b :: bytes], reads, rfl, by rw [List.flatten_singleton], by rwa [List.flatten_singleton], fun n hpos hlt => ?_⟩
      rw [List.length_singleton] at hlt
      omega
    · rw [if_neg fun hstop' => hstop ((hstops _ ⟨reads.flatten, hflat⟩).mp hstop')]
      have hmore : reads ≠ [] := by
        rintro rfl
        rw [List.flatten_nil, List.append_nil] at hflat
        rw [hflat] at hstop
        exact hstop ⟨hheader, Or.inl (le_refl _)⟩
      obtain ⟨before, after, rfl, hread, hstop', hfirst⟩ := ih hflat hmore fun r hr => hne r (List.mem_cons_of_mem _ hr)
      refine ⟨(b :: bytes) :: before, after, rfl, ?_, ?_, fun n hpos hlt => ?_⟩
      · rw [hread, List.flatten_cons, List.append_assoc]
      · rwa [List.flatten_cons, ← List.append_assoc]
      · obtain ⟨n, rfl⟩ := Nat.exists_eq_succ_of_ne_zero hpos.ne'
        rw [List.take_succ_cons, List.flatten_cons, ← List.append_assoc]
        rcases Nat.eq_zero_or_pos n with rfl | hn
        · rwa [List.take_zero, List.flatten_nil, List.append_nil]
        · exact hfirst n hn (Nat.lt_of_succ_lt_succ hlt)

/-- Some read behind the blank line ends within a character. -/
def SplitsCharacter (headerSection : Str) (reads : List Bytes) : Prop :=
  ∃ n, byteLen headerSection + 4 ≤ (reads.take n).flatten.length ∧ ¬ IsUtf8 (reads.take n).flatten

/-- What the loop has read of a complete request: all of it, or no text if a read splits a character. -/
theorem readLoop_complete (h : Complete toUppercase headerSection body req) (later : List Read) {reads : List Bytes}
    (hne : ∀ r ∈ reads, r ≠ []) (hreads : reads.flatten = encode (headerSection ++ blankLine ++ body)) :
    ∃ buf, readLoop toUppercase [] (reads.map .read ++ later) = .received buf ∧
      (¬ SplitsCharacter headerSection reads → buf = encode (headerSection ++ blankLine ++ body)) ∧
      (SplitsCharacter headerSection reads → buf ≠ [] ∧ fromUtf8 buf = none) := by
  have hnonempty : reads ≠ [] := by
    rintro rfl
    have hlen := congrArg List.length hreads
    rw [length_request, List.flatten_nil, List.length_nil] at hlen
    omega
  have hbuffer : [] ++ reads.flatten = encode (headerSection ++ blankLine ++ body) := hreads
  obtain ⟨before, after, rfl, hread, hstop, hfirst⟩ := readLoop_reads h later hbuffer hnonempty hne
  rw [List.nil_append] at hread hstop
  have hpre : before.flatten <+: encode (headerSection ++ blankLine ++ body) :=
    ⟨after.flatten, by rw [← hreads, List.flatten_append]⟩
  refine ⟨before.flatten, hread, fun hsplit => ?_, fun hsplit => ?_⟩
  · refine hpre.eq_of_length_le (hstop.2.resolve_right fun hnot => hsplit ⟨before.length, ?_, ?_⟩)
    · rw [List.take_left]
      exact hstop.1
    · rwa [List.take_left]
  · have hnot : ¬ IsUtf8 before.flatten := by
      rcases hstop.2 with hle | hnot
      · -- the read that splits a character would have stopped the loop before
        obtain ⟨n, hheader, hnot⟩ := hsplit
        have hwhole := hpre.eq_of_length_le hle
        have hlt : n < before.length := by
          by_contra hge
          refine hnot ?_
          rw [List.take_append, List.take_of_length_le (Nat.le_of_not_lt hge), List.flatten_append]
          have hafter : after.flatten = [] := by
            rw [List.flatten_append, hwhole] at hreads
            exact List.append_cancel_left (hreads.trans (List.append_nil _).symm)
          have hnil : (after.take (n - before.length)).flatten = [] :=
            List.prefix_nil.mp (hafter ▸ (List.take_prefix _ after).flatten)
          rw [hnil, List.append_nil, hwhole]
          exact ⟨_, rfl⟩
        have hpos : 0 < n := by
          rcases Nat.eq_zero_or_pos n with rfl | hpos
          · rw [List.take_zero, List.flatten_nil, List.length_nil] at hheader
            omega
          · exact hpos
        exact absurd ⟨hheader, Or.inr hnot⟩ (hfirst n hpos hlt)
      · exact hnot
    refine ⟨?_, Option.eq_none_iff_forall_ne_some.mpr fun s hs => hnot ⟨s, fromUtf8_eq_some_iff.mp hs⟩⟩
    rintro heq
    exact hnot (heq ▸ ⟨[], rfl⟩)

end Reading

/-- **A complete request is handled as it was sent, in whatever reads it arrives, unless one of them ends within a
character of the body; then it is malformed.** -/
theorem handleConnection_complete (lib : Lib) (config : WebhookChannelConfig) (base : BaseChannelConfig)
    {headerSection body : Str} {req : ParsedRequest} (h : Complete lib.toUppercase headerSection body req)
    {reads : List Bytes} (hne : ∀ r ∈ reads, r ≠ []) (hreads : reads.flatten = encode (headerSection ++ blankLine ++ body))
    (later : List Read) :
    (¬ SplitsCharacter headerSection reads → handleConnection lib config base (reads.map .read ++ later) =
      handleRequest lib config base { req with body }) ∧
    (SplitsCharacter headerSection reads → handleConnection lib config base (reads.map .read ++ later) =
      { response := badRequest "malformed request".toList }) := by
  obtain ⟨buf, hread, hwhole, hsplit⟩ := readLoop_complete h later hne hreads
  refine ⟨fun hnot => ?_, fun hbad => ?_⟩
  · have hraw : encode (headerSection ++ blankLine ++ body) ≠ [] := by
      intro hnil
      have hlen := congrArg List.length hnil
      rw [length_request, List.length_nil] at hlen
      omega
    simp only [handleConnection, hread, hwhole hnot, if_neg hraw, h.parseHttpRequest]
  · obtain ⟨hbuf, hnone⟩ := hsplit hbad
    simp only [handleConnection, hread, if_neg hbuf, parseHttpRequest, hnone]

/-- A request with a character of two bytes in its body. -/
def exampleHeader : Str := "POST /webhook HTTP/1.1\r\nContent-Length: 2".toList

def exampleRaw : Bytes := encode (exampleHeader ++ blankLine ++ "é".toList)

/-- `serde_json` on that body. -/
def exampleLib : Lib := ⟨id, id, fun _ => .error "expected value at line 1 column 1".toList, fun _ => true⟩

/-- The same request in one read, and with its last byte in a second one. -/
theorem handleConnection_complete_example :
    handleConnection exampleLib {} {} ([exampleRaw].map .read ++ []) =
        handleRequest exampleLib {} {} ⟨"POST".toList, "/webhook".toList, [("Content-Length".toList, "2".toList)], "é".toList⟩ ∧
      handleConnection exampleLib {} {} ([exampleRaw.take 46, exampleRaw.drop 46].map .read ++ []) =
        { response := badRequest "malformed request".toList } := by
  have hcomplete : Complete id exampleHeader "é".toList
      ⟨"POST".toList, "/webhook".toList, [("Content-Length".toList, "2".toList)], []⟩ :=
    ⟨by rfl, by rfl, by decide, by decide⟩
  constructor
  · refine (handleConnection_complete exampleLib {} {} hcomplete (by decide) (by decide) []).1 ?_
    rintro ⟨n, hlen, hnot⟩
    cases n with
    | zero => exact absurd hlen (by decide)
    | succ n =>
      refine hnot ⟨exampleHeader ++ blankLine ++ "é".toList, ?_⟩
      rw [List.take_succ_cons, List.take_nil]
      exact List.append_nil _
  · refine (handleConnection_complete exampleLib {} {} hcomplete (by decide) (by decide) []).2 ⟨1, by decide, ?_⟩
    rintro ⟨s, hs⟩
    have hnone : fromUtf8 ([exampleRaw.take 46, exampleRaw.drop 46].take 1).flatten = none := by decide
    rw [hs, fromUtf8_encode] at hnone
    cases hnone

/-! ## What is published -/

section Published

variable (lib : Lib) (config : WebhookChannelConfig) (base : BaseChannelConfig)

/-- A request whose message is published. -/
structure Accepted (request : ParsedRequest) (msg : InboundMessage) : Prop where
  method : request.method = "POST".toList
  path : request.path.takeWhile (· ≠ '?') = config.path
  token : ∀ token, config.authToken = some token → CarriesToken request.headers token
  signature : ∀ secret, config.signatureSecret = some secret →
    CarriesSignature lib.sha256 request.headers request.body config.signatureHeader secret
  payload : ∃ payload, lib.fromStr request.body = .ok payload ∧ trim payload.message ≠ [] ∧
    resolveIdentity payload config = .ok (msg.senderId, msg.chatId) ∧
    msg = InboundMessage.new "webhook".toList msg.senderId msg.chatId (trim payload.message)
  allowed : base.isAllowed msg.senderId = true
  taken : lib.publishInbound msg = true

variable {lib config base}

theorem validateAuth_config_iff {headers : List (Str × Str)} : validateAuth headers config.authToken = true ↔
    ∀ token, config.authToken = some token → CarriesToken headers token := by
  cases config.authToken with
  | none => exact ⟨fun _ _ h => (by cases h), fun _ => rfl⟩
  | some token =>
    rw [validateAuth_iff]
    exact ⟨fun h _ heq => (by cases heq; exact h), fun h => h token rfl⟩

theorem validateSignature_config_iff {headers : List (Str × Str)} {body : Str} :
    validateSignature lib.sha256 headers body config.signatureHeader config.signatureSecret = true ↔
      ∀ secret, config.signatureSecret = some secret → CarriesSignature lib.sha256 headers body config.signatureHeader secret := by
  cases config.signatureSecret with
  | none => exact ⟨fun _ _ h => (by cases h), fun _ => rfl⟩
  | some secret =>
    rw [validateSignature_iff]
    exact ⟨fun h _ heq => (by cases heq; exact h), fun h => h secret rfl⟩

/-- A request that passes a check goes on. -/
theorem published_of_ite {c : Prop} [Decidable c] {r : Str} {o : Outcome} {msg : InboundMessage}
    (h : (if c then { response := r } else o : Outcome).published = some msg) : ¬ c ∧ o.published = some msg := by
  by_cases hc : c
  · rw [if_pos hc] at h
    cases h
  · rw [if_neg hc] at h
    exact ⟨hc, h⟩

theorem handleRequest_published_iff {request : ParsedRequest} {msg : InboundMessage} :
    (handleRequest lib config base request).published = some msg ↔ Accepted lib config base request msg := by
  constructor
  · intro h
    obtain ⟨hmethod, h⟩ := published_of_ite h
    obtain ⟨hpath, h⟩ := published_of_ite h
    obtain ⟨hauth, h⟩ := published_of_ite h
    obtain ⟨hsignature, h⟩ := published_of_ite h
    cases hpayload : lib.fromStr request.body with
    | error e =>
      rw [hpayload] at h
      cases h
    | ok payload =>
      rw [hpayload] at h
      obtain ⟨hmessage, h⟩ := published_of_ite h
      cases hidentity : resolveIdentity payload config with
      | error e =>
        rw [hidentity] at h
        cases h
      | ok identity =>
        obtain ⟨senderId, chatId⟩ := identity
        rw [hidentity] at h
        obtain ⟨hallowed, h⟩ := published_of_ite h
        dsimp only at h
        split at h
        · next htaken =>
          cases h
          exact ⟨not_not.mp hmethod, not_not.mp hpath, validateAuth_config_iff.mp (by simpa using hauth),
            validateSignature_config_iff.mp (by simpa using hsignature), ⟨payload, hpayload, hmessage, hidentity, rfl⟩,
            by simpa [InboundMessage.new] using hallowed, htaken⟩
        · cases h
  · rintro ⟨hmethod, hpath, htoken, hsignature, ⟨payload, hpayload, hmessage, hidentity, hmsg⟩, hallowed, htaken⟩
    rw [hmsg] at htaken
    simp only [handleRequest, hmethod, hpath, validateAuth_config_iff.mpr htoken, validateSignature_config_iff.mpr hsignature,
      hpayload, hmessage, hidentity, hallowed, htaken, ne_eq, not_true_eq_false, if_false, Bool.not_true, Bool.false_eq_true,
      if_true]
    exact congrArg some hmsg.symm

/-- **What a connection publishes**: the message of a request with the token and the signature, for every sequence of reads. -/
theorem published_iff (lib : Lib) (config : WebhookChannelConfig) (base : BaseChannelConfig) (events : List Read)
    (msg : InboundMessage) :
    (handleConnection lib config base events).published = some msg ↔ ∃ buf request,
      readLoop lib.toUppercase [] events = .received buf ∧ parseHttpRequest lib.toUppercase buf = .ok request ∧
        Accepted lib config base request msg := by
  unfold handleConnection
  constructor
  · intro h
    split at h
    · cases h
    · cases h
    · cases h
    · next buf hread =>
      split at h
      · cases h
      · split at h
        · cases h
        · next request hrequest => exact ⟨buf, request, hread, hrequest, handleRequest_published_iff.mp h⟩
  · rintro ⟨buf, request, hread, hrequest, haccepted⟩
    have hne : buf ≠ [] := by
      rintro rfl
      cases hrequest
    simp only [hread, if_neg hne, hrequest]
    exact handleRequest_published_iff.mpr haccepted

end Published

/-! ## Framing -/

/-- The length of the body is the one that the headers announce. -/
def framed (response : Str) : Bool :=
  match cutFirst blankLine response with
  | none => false
  | some (head, body) => contentLength ((lines head).tail.filterMap parseHeader) = byteLen body

/-- The headers of a refused request end before its length, which becomes a part of the body. -/
theorem framed_badRequest (e : Str) : framed (badRequest e) = false := by
  have hcut : cutFirst blankLine http400BadRequest =
      some ("HTTP/1.1 400 Bad Request\r\nContent-Type: application/json\r\nConnection: close".toList, []) := by
    rfl
  have hwhole := cutFirst_append (d := '\r') (p := "\n\r\n".toList) hcut (withLength (errorBody e))
  have hbody : 0 < byteLen (withLength (errorBody e)) := byteLen_pos (List.cons_ne_nil _ _)
  unfold framed badRequest
  simp only [show cutFirst blankLine _ = _ from hwhole, List.nil_append, decide_eq_false_iff_not]
  exact hbody.ne

/-- The responses without a text of their own. -/
def fixedResponses : List Str :=
  [http200Ok, http401Unauthorized, http404NotFound, http405MethodNotAllowed, http413PayloadTooLarge]

theorem framed_fixed : ∀ r ∈ fixedResponses, framed r = false := by
  decide +kernel

theorem framed_internalError : framed internalError = true := by
  decide +kernel

/-- What is written to a connection. -/
def Written (r : Str) : Prop := r ∈ fixedResponses ∨ (∃ e, r = badRequest e) ∨ r = internalError

theorem handleRequest_written {lib : Lib} {config : WebhookChannelConfig} {base : BaseChannelConfig} {request : ParsedRequest}
    {r : Str} (h : (handleRequest lib config base request).response = some r) : Written r := by
  unfold handleRequest at h
  dsimp only at h
  repeat' split at h
  all_goals
    obtain rfl := Option.some.inj h
    simp [Written, fixedResponses]

theorem handleConnection_written {lib : Lib} {config : WebhookChannelConfig} {base : BaseChannelConfig} {events : List Read}
    {r : Str} (h : (handleConnection lib config base events).response = some r) : Written r := by
  unfold handleConnection at h
  split at h
  · obtain rfl := Option.some.inj h
    exact Or.inl (by simp [fixedResponses])
  · cases h
  · cases h
  · split at h
    · cases h
    · split at h
      · obtain rfl := Option.some.inj h
        exact Or.inr (Or.inl ⟨_, rfl⟩)
      · exact handleRequest_written h

/-- **Of all responses only that for a closed bus is as long as it announces.** -/
theorem framed_response_iff (lib : Lib) (config : WebhookChannelConfig) (base : BaseChannelConfig) (events : List Read)
    (r : Str) (h : (handleConnection lib config base events).response = some r) : framed r = true ↔ r = internalError := by
  rcases handleConnection_written h with hfixed | ⟨e, rfl⟩ | rfl
  · rw [framed_fixed r hfixed]
    refine ⟨fun h => (by cases h), fun heq => ?_⟩
    rw [heq] at hfixed
    exact absurd framed_internalError (Bool.eq_false_iff.mp (framed_fixed _ hfixed))
  · rw [framed_badRequest]
    refine ⟨fun h => (by cases h), fun heq => ?_⟩
    have hframed := framed_badRequest e
    rw [heq] at hframed
    exact absurd framed_internalError (Bool.eq_false_iff.mp hframed)
  · exact ⟨fun _ => rfl, fun _ => framed_internalError⟩

/-- A request that is no text. -/
theorem framed_response_iff_example :
    framed (badRequest "malformed request".toList) = true ↔ badRequest "malformed request".toList = internalError :=
  framed_response_iff exampleLib {} {} [.read [0xFF], .read []] _ (by rfl)

end Zeptoclaw.Webhook
