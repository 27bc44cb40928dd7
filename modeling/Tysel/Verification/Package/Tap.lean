import Tysel.Algorithm.Package.Tap

/-! What is encoded is decoded again, alone or behind any stub. A payload determines its own length,
so that no other byte string with its header decodes. -/

namespace Tysel.Package

open Tysel.Bytes List Except Nat Prod

variable {L : Libraries} {rest : Bytes} {n : ℕ} {index : Bytes}

/-! ## Reading -/

theorem take_ok_iff {p : Bytes × Bytes} :
    take n rest = .ok p ↔ n ≤ rest.length ∧ p = (rest.take n, rest.drop n) := by
  rw [take]
  split
  · rename_i h
    exact iff_of_false nofun fun hle => absurd hle.1 (not_le.mpr h)
  · rename_i h
    rw [ok.injEq]
    exact ⟨fun heq => ⟨not_lt.mp h, heq.symm⟩, fun heq => heq.2.symm⟩

theorem take_append (front back : Bytes) :
    take front.length (front ++ back) = .ok (front, back) := by
  rw [take_ok_iff, take_left, drop_left, length_append]
  exact ⟨Nat.le_add_right .., rfl⟩

theorem readUsize_append (h : n < 2 ^ 64) (back : Bytes) :
    readUsize (leBytes 8 n ++ back) = .ok (n, back) := by
  have htake := take_append (leBytes 8 n) back
  rw [leBytes_length] at htake
  have hread : ofLeBytes (leBytes 8 n) = n := ofLeBytes_leBytes (lt_of_lt_of_eq h (by norm_num))
  simp only [readUsize, htake, ok_bind, hread]
  rfl

theorem readEnvelope_append (back : Bytes) :
    readEnvelope (tapMagic ++ (leBytes 4 tapVersion ++ back)) = .ok (tapVersion, back) := by
  have hversion := take_append (leBytes 4 tapVersion) back
  rw [leBytes_length] at hversion
  rfl

/-! ## Components -/

variable {bs data whole : Bytes}

theorem readBlob_appendBlob {front : Bytes} (h : (appendBlob L front bs).2 <+: whole)
    (hsize : whole.length < 2 ^ 64) :
    readBlob L whole (appendBlob L front bs).1 = .ok bs := by
  obtain ⟨_, rfl⟩ := h
  simp only [appendBlob, length_append] at hsize ⊢
  simp only [readBlob, window_middle, bind_ok, reject_ok, pure_ok, length_append]
  refine ⟨(), ?_, (), ?_, (), ?_, trivial⟩
  · omega
  · omega
  · exact not_not.mpr rfl

theorem encodeAot_extends (data : Bytes) (artifacts : List PackagedAot) :
    data <+: (encodeAot L data artifacts).2 := by
  induction artifacts generalizing data with
  | nil => exact prefix_rfl
  | cons artifact _ ih => exact (prefix_append data artifact.bytes).trans (ih _)

theorem encodeEntries_extends (data : Bytes) (comps : List PackagedComponent) :
    data <+: (encodeEntries L data comps).2 := by
  induction comps generalizing data with
  | nil => exact prefix_rfl
  | cons comp _ ih =>
    have hsource : data <+: data ++ comp.source := prefix_append ..
    have hnative := encodeAot_extends (L := L) (data ++ comp.source) comp.aot
    exact (hsource.trans hnative).trans (ih _)

theorem decodeAot_encodeAot {artifacts : List PackagedAot}
    (h : (encodeAot L data artifacts).2 <+: whole) (hsize : whole.length < 2 ^ 64) :
    List.Forall₂ (fun entry artifact => decodeAot L whole entry = .ok artifact)
      (encodeAot L data artifacts).1 artifacts := by
  induction artifacts generalizing data with
  | nil => exact .nil
  | cons artifact rest ih =>
    have hhere : (appendBlob L data artifact.bytes).2 <+: whole :=
      (encodeAot_extends _ rest).trans h
    have hblob := readBlob_appendBlob hhere hsize
    refine .cons ?_ (ih h)
    exact bind_ok.mpr ⟨artifact.bytes, hblob, rfl⟩

variable {comps : List PackagedComponent} {tap : Tap}

theorem decodeEntry_encodeEntries
    (h : (encodeEntries L data comps).2 <+: whole) (hsize : whole.length < 2 ^ 64)
    (haot : ∀ comp ∈ comps, comp.aot.length ≤ maxAotArtifactsPerComponent) :
    List.Forall₂ (fun entry comp => decodeEntry L whole entry = .ok comp)
      (encodeEntries L data comps).1 comps := by
  induction comps generalizing data with
  | nil => exact .nil
  | cons comp rest ih =>
    rw [forall_mem_cons] at haot
    have hnative : (encodeAot L (data ++ comp.source) comp.aot).2 <+: whole :=
      (encodeEntries_extends _ rest).trans h
    have hsource : (appendBlob L data comp.source).2 <+: whole :=
      (encodeAot_extends _ comp.aot).trans hnative
    have hentries := decodeAot_encodeAot hnative hsize
    refine .cons ?_ (ih h haot.2)
    simp only [decodeEntry, bind_ok, reject_ok, pure_ok]
    refine ⟨(), ?_, comp.source, readBlob_appendBlob hsource hsize, comp.aot,
      mapM_ok_iff.mpr hentries, rfl⟩
    rw [not_lt]
    exact hentries.length_eq.le.trans haot.1

theorem foldlM_validateComponent_ok {names names' : List String}
    (h : comps.foldlM validateComponent names = .ok names') :
    ∀ comp ∈ comps, comp.aot.length ≤ maxAotArtifactsPerComponent := by
  induction comps generalizing names with
  | nil => simp
  | cons _ _ ih =>
    rw [foldlM_cons, bind_ok] at h
    obtain ⟨_, hstep, hrest⟩ := h
    simp only [validateComponent, bind_ok, reject_ok] at hstep
    obtain ⟨-, -, -, -, -, -, -, hfew, -⟩ := hstep
    rw [forall_mem_cons]
    exact ⟨not_lt.mp hfew, ih hrest⟩

theorem decodeComponents_encodeComponents (hjson : L.RoundTrips)
    (h : encodeComponents L comps = .ok (index, data)) (hsize : data.length < 2 ^ 64)
    (hvalid : validateComponents comps = .ok ()) :
    decodeComponents L index data = .ok comps ∧ index.length ≤ maxComponentIndexBytes := by
  simp only [encodeComponents, bind_ok, mapError_ok, reject_ok, pure_ok, mk.injEq] at h
  obtain ⟨_, hindex, -, hlimit, rfl, rfl⟩ := h
  have hparts := hvalid
  simp only [validateComponents, bind_ok, reject_ok] at hparts
  obtain ⟨-, hfew, names, hloop, -⟩ := hparts
  have hentries := decodeEntry_encodeEntries prefix_rfl hsize (foldlM_validateComponent_ok hloop)
  refine ⟨?_, not_lt.mp hlimit⟩
  simp only [decodeComponents, bind_ok, mapError_ok, reject_ok, pure_ok]
  refine ⟨_, hjson.index _ _ hindex, (), ?_, comps, mapM_ok_iff.mpr hentries, (), hvalid, rfl⟩
  rw [not_lt]
  exact hentries.length_eq.le.trans (not_lt.mp hfew)

/-! ## Payloads -/

def payload (man bundle sourceMap index data : Bytes) : Bytes :=
  tapMagic ++ (leBytes 4 tapVersion ++ (leBytes 8 man.length ++
    (leBytes 8 bundle.length ++ (leBytes 8 sourceMap.length ++ (leBytes 8 index.length ++
    (leBytes 8 data.length ++ (man ++ (bundle ++ (sourceMap ++ (index ++ data))))))))))

theorem payload_length (man bundle sourceMap index data : Bytes) :
    (payload man bundle sourceMap index data).length =
      52 + man.length + bundle.length + sourceMap.length + index.length + data.length := by
  have hmagic : tapMagic.length = 8 := rfl
  simp only [payload, length_append, leBytes_length, hmagic]
  omega

/-- What a successful encoding has checked, and what it is. -/
structure Encoded (L : Libraries) (tap : Tap) (man index data : Bytes) : Prop where
  contract : validateManifestContract L tap.manifest tapVersion = .ok ()
  components : validateComponents tap.components = .ok ()
  manifest_eq : L.manifestToVec tap.manifest = .ok man
  index_eq : encodeComponents L tap.components = .ok (index, data)
  length_le : (payload man tap.bundle tap.sourceMap index data).length ≤ maxTapPayloadBytes

theorem encode_ok_iff : tap.encode L = .ok bs ↔ ∃ man index data, Encoded L tap man index data ∧
      bs = payload man tap.bundle tap.sourceMap index data := by
  simp only [Tap.encode, bind_ok, mapError_ok, reject_ok, pure_ok]
  constructor
  · rintro ⟨_, hcontract, _, hcomponents, man, hmanifest, ⟨index, data⟩, hindex, -, -, -, hlen, rfl⟩
    refine ⟨man, index, data, ⟨hcontract, hcomponents, hmanifest, hindex, ?_⟩, rfl⟩
    rw [payload_length]
    exact not_lt.mp hlen
  rintro ⟨man, index, data, h, rfl⟩
  have hlen := h.length_le
  rw [payload_length] at hlen
  refine ⟨(), h.contract, (), h.components, man, h.manifest_eq, (index, data), h.index_eq,
    (), ?_, (), not_lt.mpr hlen, rfl⟩
  rw [maxTapPayloadBytes] at hlen
  dsimp only
  omega

theorem take_all (bs : Bytes) : take bs.length bs = .ok (bs, []) := by
  have h := take_append bs []
  rwa [append_nil] at h

theorem decode_payload {man : Bytes}
    (hlen : (payload man tap.bundle tap.sourceMap index data).length ≤ maxTapPayloadBytes)
    (hmanifest : L.manifestFromSlice man = .ok tap.manifest)
    (hcontract : validateManifestContract L tap.manifest tapVersion = .ok ())
    (hhash : tap.manifest.bundleHash = bundleHash L tap.bundle)
    (hdecoded : decodeComponents L index data = .ok tap.components)
    (hindex : index.length ≤ maxComponentIndexBytes) :
    decode L (payload man tap.bundle tap.sourceMap index data) = .ok tap := by
  have hbound := hlen
  rw [payload_length, maxTapPayloadBytes] at hbound
  have hlengths : ∀ rest, readComponentLengths tapVersion
      (leBytes 8 index.length ++ (leBytes 8 data.length ++ rest)) =
        .ok (index.length, data.length, rest) := by
    intro rest
    have hfirst : readUsize (leBytes 8 index.length ++ (leBytes 8 data.length ++ rest)) =
        .ok (index.length, leBytes 8 data.length ++ rest) := readUsize_append (by omega) _
    have hsecond : readUsize (leBytes 8 data.length ++ rest) = .ok (data.length, rest) :=
      readUsize_append (by omega) _
    simp only [readComponentLengths, hfirst, hsecond, ok_bind]
    rfl
  have hread : ∀ {n : ℕ} rest, n ≤ 512 * 1024 * 1024 →
      readUsize (leBytes 8 n ++ rest) = .ok (n, rest) :=
    fun rest hn => readUsize_append (by omega) rest
  rw [decode, reject_of_not _ (not_lt.mpr hlen), ok_bind, payload]
  simp only [readEnvelope_append, ok_bind, hlengths,
    hread (n := man.length) _ (by omega), hread (n := tap.bundle.length) _ (by omega),
    hread (n := tap.sourceMap.length) _ (by omega), take_append, take_all,
    reject_of_not _ (not_lt.mpr hindex), hmanifest]
  refine bind_ok.mpr ⟨(), reject_ok.mpr (by decide), ?_⟩
  refine bind_ok.mpr ⟨(), reject_ok.mpr (not_not.mpr rfl), ?_⟩
  refine bind_ok.mpr ⟨tap.manifest, rfl, bind_ok.mpr ⟨(), hcontract, ?_⟩⟩
  refine bind_ok.mpr ⟨(), reject_ok.mpr (not_not.mpr hhash), ?_⟩
  rw [if_pos (by decide), hdecoded]
  rfl

/-! ## Executables -/

theorem extract_embedded {stub : Bytes} (h : bs.length ≤ maxTapPayloadBytes) :
    extract L (stub ++ bs ++ leBytes 8 bs.length ++ endMagic) = decode L bs := by
  have hlen : bs.length < 256 ^ 8 := by
    rw [maxTapPayloadBytes] at h
    omega
  have hend : endMagic.length = 8 := rfl
  have hfile : (stub ++ bs ++ leBytes 8 bs.length ++ endMagic).length - 16 =
      (stub ++ bs).length := by
    rw [length_append, length_append, leBytes_length, hend]
    omega
  have hmagic : (stub ++ bs ++ leBytes 8 bs.length ++ endMagic).drop
      ((stub ++ bs).length + 8) = endMagic := by
    have hfront : (stub ++ bs).length + 8 = (stub ++ bs ++ leBytes 8 bs.length).length := by
      simp only [length_append, leBytes_length]
    rw [hfront, drop_left]
  have hread : ofLeBytes (window (stub ++ bs ++ leBytes 8 bs.length ++ endMagic)
      (stub ++ bs).length 8) = bs.length := by
    have hwindow := window_middle (stub ++ bs) (leBytes 8 bs.length) endMagic
    rw [leBytes_length] at hwindow
    rw [hwindow, ofLeBytes_leBytes hlen]
  have hstart : (stub ++ bs).length - bs.length = stub.length := by
    rw [length_append]
    omega
  have hpayload : window (stub ++ bs ++ leBytes 8 bs.length ++ endMagic) stub.length
      bs.length = bs := by
    rw [append_assoc (stub ++ bs)]
    exact window_middle stub bs _
  have hlong : ¬ (stub ++ bs ++ leBytes 8 bs.length ++ endMagic).length < 16 := by
    rw [length_append, length_append, leBytes_length, hend]
    omega
  have hinside : ¬ (stub ++ bs).length < bs.length := by
    rw [length_append]
    omega
  simp only [extract, hfile, hmagic, hread, hstart, hpayload, reject_of_not _ hlong,
    reject_of_not _ (not_lt.mpr h), reject_of_not _ hinside, ok_bind]
  rfl

/-- Reading the footer and the payload of a file is the same as extracting from its contents. -/
theorem fromPath_eq_extract (file : Bytes) : fromPath L file = extract L file := by
  by_cases hshort : file.length < 16
  · rw [fromPath, extract, reject_of _ hshort]
    rfl
  have hfooter : window file (file.length - 16) 16 = file.drop (file.length - 16) := by
    rw [window, take_of_length_le]
    rw [length_drop]
    omega
  have hmagic : (window file (file.length - 16) 16).drop 8 = file.drop (file.length - 16 + 8) := by
    rw [hfooter, drop_drop]
  have hnumber : (window file (file.length - 16) 16).take 8 = window file (file.length - 16) 8 := by
    rw [hfooter]
    rfl
  simp only [fromPath, extract, hmagic, hnumber]

/-! ## The length of a payload -/

def headerVersion (bs : Bytes) : ℕ := ofLeBytes (window bs 8 4)

def headerField (bs : Bytes) (start : ℕ) : ℕ := ofLeBytes (window bs start 8)

def headerLength (bs : Bytes) : ℕ := if 2 ≤ headerVersion bs then 52 else 36

def frameLength (bs : Bytes) : ℕ :=
  headerLength bs + headerField bs 12 + headerField bs 20 + headerField bs 28 +
    if 2 ≤ headerVersion bs then headerField bs 36 + headerField bs 44 else 0

theorem readEnvelope_ok {ver : ℕ} (h : readEnvelope bs = .ok (ver, rest)) :
    ver = headerVersion bs ∧ rest = bs.drop 12 ∧ 12 ≤ bs.length := by
  simp only [readEnvelope, readVersion, bind_ok, take_ok_iff, reject_ok, pure_ok] at h
  obtain ⟨_, ⟨-, rfl⟩, -, -, _, ⟨hversion, rfl⟩, heq⟩ := h
  obtain ⟨rfl, rfl⟩ := mk.inj heq
  rw [length_drop] at hversion
  refine ⟨rfl, ?_, by omega⟩
  rw [drop_drop]

theorem readUsize_ok {start : ℕ} (h : readUsize (bs.drop start) = .ok (n, rest)) :
    n = headerField bs start ∧ rest = bs.drop (start + 8) ∧ start + 8 ≤ bs.length := by
  simp only [readUsize, bind_ok, take_ok_iff, pure_ok] at h
  obtain ⟨_, ⟨hlen, rfl⟩, heq⟩ := h
  obtain ⟨rfl, rfl⟩ := mk.inj heq
  rw [length_drop] at hlen
  refine ⟨rfl, ?_, by omega⟩
  rw [drop_drop]

theorem readComponentLengths_ok {indexLen dataLen : ℕ}
    (h : readComponentLengths (headerVersion bs) (bs.drop 36) = .ok (indexLen, dataLen, rest))
    (hlen : 36 ≤ bs.length) :
    rest = bs.drop (headerLength bs) ∧ headerLength bs ≤ bs.length ∧
      frameLength bs = headerLength bs + headerField bs 12 + headerField bs 20 +
        headerField bs 28 + indexLen + dataLen := by
  rw [readComponentLengths] at h
  split at h
  · rename_i hversion
    simp only [bind_ok, pure_ok] at h
    obtain ⟨⟨_, _⟩, hindex, ⟨_, _⟩, hdata, heq⟩ := h
    obtain ⟨rfl, rfl, -⟩ := readUsize_ok hindex
    obtain ⟨rfl, rfl, hend⟩ := readUsize_ok hdata
    obtain ⟨rfl, rfl, rfl⟩ := heq
    simp only [frameLength, headerLength, if_pos hversion, reduceAdd]
    exact ⟨trivial, hend, by omega⟩
  · rename_i hversion
    obtain ⟨rfl, rfl, rfl⟩ := by simpa only [ok.injEq, mk.injEq] using h
    simp only [frameLength, headerLength, if_neg hversion]
    exact ⟨trivial, hlen, trivial⟩

theorem decode_frame (h : decode L bs = .ok tap) :
    headerLength bs ≤ bs.length ∧ bs.length = frameLength bs := by
  simp only [decode, bind_ok, reject_ok] at h
  obtain ⟨-, -, ⟨_, _⟩, henvelope, -, -, ⟨_, _⟩, hmanifest, ⟨_, _⟩, hbundle,
    ⟨_, _⟩, hsourceMap, ⟨_, _, _⟩, hlengths, -, -, h⟩ := h
  obtain ⟨rfl, rfl, -⟩ := readEnvelope_ok henvelope
  obtain ⟨rfl, rfl, -⟩ := readUsize_ok hmanifest
  obtain ⟨rfl, rfl, -⟩ := readUsize_ok hbundle
  obtain ⟨rfl, rfl, hheader⟩ := readUsize_ok hsourceMap
  obtain ⟨rfl, hlong, _⟩ := readComponentLengths_ok hlengths hheader
  simp only [take_ok_iff] at h
  obtain ⟨_, ⟨h₁, rfl⟩, _, ⟨h₂, rfl⟩, _, ⟨h₃, rfl⟩, _, ⟨h₄, rfl⟩, _, ⟨h₅, rfl⟩, -, hend, -⟩ := h
  have hnothing := drop_eq_nil_iff.mp (not_not.mp hend)
  simp only [length_drop, reduceAdd] at h₁ h₂ h₃ h₄ h₅ hnothing
  exact ⟨hlong, by omega⟩

theorem frameLength_append {l r : Bytes} (h : headerLength l ≤ l.length) :
    frameLength (l ++ r) = frameLength l := by
  have hfour : 36 ≤ l.length := by
    rw [headerLength] at h
    split at h <;> omega
  have hversion : headerVersion (l ++ r) = headerVersion l := by
    rw [headerVersion, headerVersion, window_append (by omega)]
  have hfield : ∀ start, start + 8 ≤ l.length →
      headerField (l ++ r) start = headerField l start := by
    intro start hstart
    rw [headerField, headerField, window_append hstart]
  by_cases htwo : 2 ≤ headerVersion l
  · rw [headerLength, if_pos htwo] at h
    simp only [frameLength, headerLength, hversion, if_pos htwo]
    rw [hfield 12 (by omega), hfield 20 (by omega), hfield 28 (by omega), hfield 36 (by omega),
      hfield 44 (by omega)]
  · simp only [frameLength, headerLength, hversion, if_neg htwo]
    rw [hfield 12 (by omega), hfield 20 (by omega), hfield 28 (by omega)]

/-- Of a byte string and an extension of it, at most one is a payload. -/
theorem not_decode_append {l r : Bytes} {tap' : Tap} (h : decode L l = .ok tap)
    (h' : decode L (l ++ r) = .ok tap') : r = [] := by
  obtain ⟨hheader, _⟩ := decode_frame h
  obtain ⟨-, hlength'⟩ := decode_frame h'
  rw [frameLength_append hheader, length_append] at hlength'
  exact length_eq_zero_iff.mp (by omega)

/-! ## Compatibility -/

theorem decode_envelope (h : decode L bs = .ok tap) :
    ∃ ver rest, readEnvelope bs = .ok (ver, rest) ∧
      ¬ ver < minSupportedTapVersion ∧ ¬ tapVersion < ver := by
  simp only [decode, bind_ok, reject_ok] at h
  obtain ⟨-, -, ⟨ver, rest⟩, henvelope, -, hversion, -⟩ := h
  rw [not_or] at hversion
  exact ⟨ver, rest, henvelope, hversion.1, hversion.2⟩

theorem compatibilityReport_iff (bs : Bytes) :
    (compatibilityReport L bs).compatible = true ↔ ∃ tap, decode L bs = .ok tap := by
  constructor
  · intro h
    rw [compatibilityReport] at h
    split at h
    · simp [report] at h
    split at h
    · simp [report] at h
    split at h
    · simp [report] at h
    · split at h
      · rename_i tap hdecode
        exact ⟨tap, hdecode⟩
      · simp [report] at h
  · rintro ⟨tap, h⟩
    obtain ⟨ver, rest, henvelope, holder, hnewer⟩ := decode_envelope h
    simp only [compatibilityReport, henvelope, if_neg holder, if_neg hnewer, h, report]
    by_cases hcurrent : ver = tapVersion <;> simp [hcurrent]

/-! ## The round trip -/

/-- A package that encodes decodes again, also behind any stub; reading a file is extracting from
its contents; neither a proper prefix of the payload nor an extension of it decodes; and the
report calls exactly those byte strings compatible that decode. -/
theorem tap_round_trip (hjson : L.RoundTrips) {man : PackageManifest}
    {bundle sourceMap bs : Bytes} {comps : List PackagedComponent}
    (h : ((Tap.new L man bundle sourceMap).withComponents comps).encode L = .ok bs) :
    decode L bs = .ok ((Tap.new L man bundle sourceMap).withComponents comps) ∧
    (∀ stub, ∃ file, ((Tap.new L man bundle sourceMap).withComponents comps).embedInto L stub =
        .ok file ∧
      extract L file = .ok ((Tap.new L man bundle sourceMap).withComponents comps)) ∧
    (∀ file, fromPath L file = extract L file) ∧
    (∀ front, front <+: bs → front ≠ bs → ∀ tap, decode L front ≠ .ok tap) ∧
    (∀ extra, extra ≠ [] → ∀ tap, decode L (bs ++ extra) ≠ .ok tap) ∧
    ∀ b, (compatibilityReport L b).compatible = true ↔ ∃ tap, decode L b = .ok tap := by
  obtain ⟨_, _, _, hencoded, rfl⟩ := encode_ok_iff.mp h
  have hlen := hencoded.length_le
  rw [payload_length, maxTapPayloadBytes] at hlen
  obtain ⟨hdecoded, hindex⟩ :=
    decodeComponents_encodeComponents hjson hencoded.index_eq (by omega) hencoded.components
  have hdecode := decode_payload hencoded.length_le (hjson.manifest _ _ hencoded.manifest_eq)
    hencoded.contract rfl hdecoded hindex
  refine ⟨hdecode, ?_, fromPath_eq_extract, ?_, ?_, compatibilityReport_iff⟩
  · intro stub
    refine ⟨_, bind_ok.mpr ⟨_, h, rfl⟩, ?_⟩
    rw [extract_embedded hencoded.length_le]
    exact hdecode
  · rintro _ ⟨_, hback⟩ hne _ hfront
    have hextension := hdecode
    rw [← hback] at hextension
    have hnil := not_decode_append hfront hextension
    rw [hnil, append_nil] at hback
    exact hne hback
  · intro extra hextra tap hlonger
    exact hextra (not_decode_append hdecode hlonger)

def zeroDigest : String := hexEncode (replicate 32 0)

def sampleManifest : PackageManifest :=
  { formatVersion := 5, runtimeVersion := "0.4.0", applicationId := "app",
    entrypoint := "main.ts", executionProfile := "service", listen := "127.0.0.1:3000",
    memoryLimitBytes := 1048576, cpuMsPerTurn := 50, requestTimeoutMs := 1000,
    bundleHash := zeroDigest, maxRequestBytes := 1024, maxResponseBytes := 1024,
    websocket := false, workers := 1, maxInFlight := 1, http1 := true, http2 := false,
    sqlitePath := "", secretNames := [], fetchHosts := [], postgres := [], redis := [],
    fsRead := [], fsWrite := [], jsonLogs := true }

def sampleComponent : PackagedComponent :=
  ⟨"thumbs", "0.4.0", [3], [⟨"linux-x64", "37.0.0", 0, .replicate 32 0, [4, 5]⟩]⟩

def sampleIndex : ComponentIndex :=
  ⟨[⟨"thumbs", "0.4.0", ⟨0, 1, zeroDigest⟩,
    [⟨"linux-x64", "37.0.0", 0, .replicate 32 0, ⟨1, 2, zeroDigest⟩⟩]⟩]⟩

/-- Every digest is zero. The manifest and the index of the package below are the only ones. -/
def sampleLibraries : Libraries where
  manifestToVec man := if man = sampleManifest then .ok [1] else .error "other"
  manifestFromSlice bs := if bs = [1] then .ok sampleManifest else .error "other"
  indexToVec index := if index = sampleIndex then .ok [2] else .error "other"
  indexFromSlice bs := if bs = [2] then .ok sampleIndex else .error "other"
  sha256 _ := .replicate 32 0
  isSemver _ := true

theorem sampleLibraries_roundTrips : sampleLibraries.RoundTrips := by
  constructor <;> intro _ _ h <;>
    simp only [sampleLibraries, ite_eq_iff, ok.injEq, reduceCtorEq, and_false, or_false] at h ⊢
  · exact ⟨h.2.symm, h.1.symm⟩
  · exact ⟨h.2.symm, h.1.symm⟩

def sampleTap : Tap :=
  (Tap.new sampleLibraries sampleManifest [6] [7]).withComponents [sampleComponent]

/-- A package with a source map and a component, also behind a stub. -/
theorem component_package_round_trip : ∃ bs file, sampleTap.encode sampleLibraries = .ok bs ∧
    decode sampleLibraries bs = .ok sampleTap ∧
    sampleTap.embedInto sampleLibraries [8, 9] = .ok file ∧
    extract sampleLibraries file = .ok sampleTap := by
  have hok : (sampleTap.encode sampleLibraries).isOk = true := by decide +kernel
  cases hbytes : sampleTap.encode sampleLibraries with
  | error => simp [hbytes, Except.isOk, Except.toBool] at hok
  | ok bs =>
    obtain ⟨hdecode, hembed, -⟩ := tap_round_trip sampleLibraries_roundTrips hbytes
    obtain ⟨file, hfile⟩ := hembed [8, 9]
    exact ⟨bs, file, rfl, hdecode, hfile⟩

end Tysel.Package
