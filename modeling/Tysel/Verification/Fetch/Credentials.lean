import Tysel.Algorithm.Fetch.Outbound

/-! A header value made from a secret, and any authorization header, reaches a hop only when every
hop up to it has one origin. Three parts of the code must agree for that: the test for a secret
handle with its expansion, the origin of a URL with the address it is connected to, and the
names marked at the start with the names removed later. -/

namespace Tysel.Fetch

open Text List Except Nat RequestHeaders FetchState

/-- The expansion of a header value is not the same for all secret stores. -/
def FromStore (w : String) : Prop :=
  ¬∃ v, ∀ secrets, expandHeaderValueWith w (resolve secrets) = .ok v

theorem expand_plain {w : String} (h : isSecretHandleValue w = false)
    (resolve : String → Except String String) :
    expandHeaderValueWith w resolve = .ok w := by
  unfold isSecretHandleValue at h
  unfold expandHeaderValueWith
  cases hb : stripPrefix "Bearer " (trim w.toList) with
  | none =>
    simp only [hb] at h
    simp [hb, h]
  | some =>
    have hbearer : startsWith (trim w.toList) "secret:" = false :=
      not_startsWith_of_head_ne (startsWith_of_stripPrefix hb)
        (show _ = some 'B' by decide) (show _ = some 's' by decide) (by decide)
    simp only [hb] at h
    simp [hb, h, hbearer]

/-- A request header made from a pair whose value the store decides. -/
def Resolved (secrets : Secrets) (pairs : List (String × String)) (header : String × String) :
    Prop :=
  ∃ w, (header.1, w) ∈ pairs ∧ FromStore w ∧
    expandHeaderValueWith w (resolve secrets) = .ok header.2

variable {headers headers' : RequestHeaders}

variable {resolve : String → Except String String} {pair : String × String} {state : FetchState}

theorem mem_secretNames_add (h : headers.add resolve pair = .ok headers') :
    headers.secretNames ⊆ headers'.secretNames ∧
      (skipRequestHeader (asciiLowercase pair.1) = false → isSecretHandleValue pair.2 = true →
        asciiLowercase pair.1 ∈ headers'.secretNames) := by
  unfold add at h
  by_cases hskip : skipRequestHeader (asciiLowercase pair.1) = true
  · simp only [hskip, if_true, ok.injEq] at h
    subst h
    exact ⟨Subset.refl _, fun hn => by simp [hskip] at hn⟩
  simp only [hskip, Bool.false_eq_true, if_false, bind_ok, pure_ok] at h
  obtain ⟨-, -, rfl⟩ := h
  refine ⟨fun name hname => ?_, fun _ hsecret => ?_⟩
  · split
    · exact mem_append_left _ hname
    · exact hname
  · by_cases hmem : asciiLowercase pair.1 ∈ headers.secretNames
    · simp [hmem]
    · simp [hmem, hsecret]

theorem mem_headers_add (h : headers.add resolve pair = .ok headers') :
    ∀ header ∈ headers'.headers, header ∈ headers.headers ∨
      skipRequestHeader (asciiLowercase header.1) = false := by
  unfold add at h
  by_cases hskip : skipRequestHeader (asciiLowercase pair.1) = true
  · simp only [hskip, if_true, ok.injEq] at h
    subst h
    exact fun header hheader => .inl hheader
  simp only [hskip, Bool.false_eq_true, if_false, bind_ok, pure_ok] at h
  obtain ⟨-, -, rfl⟩ := h
  intro header hheader
  rcases mem_append.mp hheader with hold | hnew
  · exact .inl hold
  · obtain rfl := mem_singleton.mp hnew
    exact .inr (by simpa using hskip)

variable {pairs : List (String × String)}

/-- Every name whose value is a secret handle is marked, whatever pairs stand around it. -/
theorem secretNames_of_fold (h : pairs.foldlM (add resolve) headers = .ok headers') :
    headers.secretNames ⊆ headers'.secretNames ∧
      ∀ pair ∈ pairs, skipRequestHeader (asciiLowercase pair.1) = false →
        isSecretHandleValue pair.2 = true → asciiLowercase pair.1 ∈ headers'.secretNames := by
  induction pairs generalizing headers with
  | nil =>
    obtain rfl := ok.inj h
    exact ⟨Subset.refl _, by simp⟩
  | cons _ _ ih =>
    rw [foldlM_cons, bind_ok] at h
    obtain ⟨next, hadd, hrest⟩ := h
    obtain ⟨hgrow, hmark⟩ := mem_secretNames_add hadd
    obtain ⟨hgrow', hmark'⟩ := ih hrest
    refine ⟨Subset.trans hgrow hgrow', ?_⟩
    rintro p hp hskip hsecret
    rcases mem_cons.mp hp with rfl | hp
    · exact hgrow' (hmark hskip hsecret)
    · exact hmark' p hp hskip hsecret

theorem skip_false_of_fold (h : pairs.foldlM (add resolve) {} = .ok headers) :
    ∀ header ∈ headers.headers, skipRequestHeader (asciiLowercase header.1) = false := by
  refine foldlM_invariant (P := fun headers : RequestHeaders =>
    ∀ header ∈ headers.headers, skipRequestHeader (asciiLowercase header.1) = false)
    (fun headers pair headers' hheaders hadd header hheader => ?_) h (by simp)
  exact (mem_headers_add hadd header hheader).elim (hheaders header) id

/-- Scheme, host without case and trailing dots, and effective port of a connection. -/
def OutboundHop.origin (hop : OutboundHop) : Origin :=
  ⟨if hop.https then "https" else "http", originHost hop.host, hop.port⟩

theorem usesHttps_ok {uri : Uri} {https : Bool} (h : usesHttps uri = .ok https) :
    uri.scheme = some (if https then "https" else "http") := by
  unfold usesHttps at h
  split at h
  · rename_i hscheme
    split at h
    · rename_i heq
      obtain rfl := ok.inj h
      simp [hscheme, heq]
    split at h
    · rename_i heq
      obtain rfl := ok.inj h
      simp [hscheme, heq]
    · cases h
  · cases h

theorem required_ok {α : Type} {message : String} {o : Option α} {a : α} :
    required message o = .ok a ↔ o = some a := by
  cases o <;> simp [required]

structure HopMade (ctx : FetchContext) (state : FetchState) (hop : OutboundHop) : Prop where
  headers : hop.headers = state.headers.headers
  checked : checkHost hop.host ctx.hosts = .ok ()
  origin : ∀ origin, originOf ctx.libraries state.url = .ok origin → origin = hop.origin

theorem fetchHop_ok {ctx : FetchContext} {hop : OutboundHop}
    (h : fetchHop ctx state = .ok hop) : HopMade ctx state hop := by
  simp only [fetchHop, bind_ok, pure_ok] at h
  obtain ⟨_, huri, https, hscheme, _, hhost, ⟨⟩, hcheck, rfl⟩ := h
  refine ⟨rfl, hcheck, fun origin horigin => ?_⟩
  simp only [originOf, bind_ok, pure_ok, required_ok, reject_ok] at horigin
  obtain ⟨_, huri', _, hscheme', -, -, _, hhost', rfl⟩ := horigin
  obtain rfl := ok.inj (huri.symm.trans huri')
  obtain rfl := Option.some.inj ((required_ok.mp hhost).symm.trans hhost')
  obtain rfl := Option.some.inj ((usesHttps_ok hscheme).symm.trans hscheme')
  cases https <;> rfl

def Credential (secretNames : List String) (header : String × String) : Prop :=
  asciiLowercase header.1 = "authorization" ∨ asciiLowercase header.1 ∈ secretNames

/-- A redirect keeps the marked names and either keeps the headers on one origin or drops the
credentials. -/
structure Redirected (libraries : Libraries) (state next : FetchState) : Prop where
  secretNames : next.headers.secretNames = state.headers.secretNames
  sublist : next.headers.headers.Sublist state.headers.headers
  stays : (∃ origin, originOf libraries state.url = .ok origin ∧
      originOf libraries next.url = .ok origin) ∨
    ∀ header ∈ next.headers.headers, ¬Credential state.headers.secretNames header

theorem redirect_ok {libraries : Libraries} {next : FetchState} {status : ℕ} {location : String}
    (h : state.redirect libraries status location = .ok next) :
    Redirected libraries state next := by
  simp only [redirect, bind_ok] at h
  obtain ⟨url, -, same, hsame, h⟩ := h
  have hnext : next.url = url ∧ next.headers =
      if same then state.headers else stripCredentialsForCrossOrigin state.headers := by
    split at h <;> obtain rfl := pure_ok.mp h <;> exact ⟨rfl, rfl⟩
  simp only [sameOrigin, bind_ok, pure_ok] at hsame
  obtain ⟨current, hcurrent, target, htarget, hsame⟩ := hsame
  cases same with
  | true =>
    obtain rfl : current = target := of_decide_eq_true hsame
    rw [if_pos rfl] at hnext
    exact ⟨by rw [hnext.2], by rw [hnext.2], .inl ⟨current, hcurrent, hnext.1 ▸ htarget⟩⟩
  | false =>
    rw [if_neg Bool.false_ne_true] at hnext
    refine ⟨by rw [hnext.2]; rfl, by rw [hnext.2]; exact filter_sublist, .inr ?_⟩
    intro header hheader
    simp only [hnext.2, stripCredentialsForCrossOrigin, mem_filter, decide_eq_true_eq] at hheader
    rintro (hauth | hsecret)
    · exact hheader.2.1 hauth
    · exact hheader.2.2 hsecret

/-- The hops of a loop are made for its request and then for each redirect. -/
inductive Followed (ctx : FetchContext) : ℕ → FetchState → List OutboundHop → Prop
  | none (fuel : ℕ) (state : FetchState) : Followed ctx fuel state []
  | last {fuel : ℕ} {state : FetchState} {hop : OutboundHop} (h : HopMade ctx state hop) :
      Followed ctx (fuel + 1) state [hop]
  | redirected {fuel : ℕ} {state next : FetchState} {hop : OutboundHop}
      {rest : List OutboundHop} (h : HopMade ctx state hop)
      (hnext : Redirected ctx.libraries state next) (hrest : Followed ctx fuel next rest) :
      Followed ctx (fuel + 1) state (hop :: rest)

theorem fetchLoop_followed (ctx : FetchContext) (replies : ℕ → HopReply) (fuel made : ℕ)
    (state : FetchState) :
    Followed ctx fuel state (fetchLoop ctx replies fuel made state).1 := by
  induction fuel generalizing made state with
  | zero => exact .none 0 state
  | succ fuel ih =>
    rw [fetchLoop]
    cases hhop : fetchHop ctx state with
    | error => exact .none (fuel + 1) state
    | ok =>
      have hmade := fetchHop_ok hhop
      cases replies made with
      | failed => exact .last hmade
      | response status location =>
        cases location with
        | none => exact .last hmade
        | some location =>
          by_cases hredirect : 300 ≤ status ∧ status < 400
          · simp only [hredirect, and_self, if_true]
            cases hnext : state.redirect ctx.libraries status location with
            | error => exact .last hmade
            | ok next => exact .redirected hmade (redirect_ok hnext) (ih (made + 1) next)
          · simp only [hredirect, if_false]
            exact .last hmade

section Followed

variable {ctx : FetchContext} {fuel : ℕ} {state : FetchState} {hops : List OutboundHop}

section

variable (h : Followed ctx fuel state hops)

include h

theorem Followed.length_le : hops.length ≤ fuel := by
  induction h with
  | none => exact zero_le _
  | last => exact le_add_left 1 _
  | redirected _ _ _ ih => exact succ_le_succ ih

theorem Followed.checked : ∀ hop ∈ hops, checkHost hop.host ctx.hosts = .ok () := by
  induction h with
  | none => simp
  | last hmade => simpa using hmade.checked
  | redirected hmade _ _ ih => exact forall_mem_cons.mpr ⟨hmade.checked, ih⟩

theorem Followed.sublist : ∀ hop ∈ hops, hop.headers.Sublist state.headers.headers := by
  induction h with
  | none => simp
  | last hmade => simpa using hmade.headers ▸ Sublist.refl _
  | redirected hmade hnext _ ih =>
    refine forall_mem_cons.mpr ⟨hmade.headers ▸ Sublist.refl _, ?_⟩
    exact fun hop hhop => (ih hop hhop).trans hnext.sublist

end

theorem Followed.head {hop : OutboundHop} {rest : List OutboundHop}
    (h : Followed ctx fuel state (hop :: rest)) : HopMade ctx state hop := by
  cases h with
  | last hmade | redirected hmade => exact hmade

/-- Of two hops, the later one has fewer headers, and credentials only on the same origin. -/
def Confined (secretNames : List String) (earlier later : OutboundHop) : Prop :=
  later.headers.Sublist earlier.headers ∧
    ∀ header ∈ later.headers, Credential secretNames header → earlier.origin = later.origin

theorem Followed.confined (h : Followed ctx fuel state hops) :
    hops.Pairwise (Confined state.headers.secretNames) := by
  induction h with
  | none => exact Pairwise.nil
  | last => exact pairwise_singleton _ _
  | @redirected _ _ next hop rest hmade hnext hrest ih =>
    rw [hnext.secretNames] at ih
    refine pairwise_cons.mpr ⟨fun later hlater => ?_, ih⟩
    have hsub := hrest.sublist later hlater
    refine ⟨hmade.headers ▸ hsub.trans hnext.sublist, fun header hheader hcredential => ?_⟩
    rcases hnext.stays with ⟨origin, hcurrent, htarget⟩ | hstripped
    · -- The next hop is on the same origin; the others follow from it.
      obtain rfl := hmade.origin origin hcurrent
      cases rest with
      | nil => cases hlater
      | cons =>
        have hfirst := hrest.head.origin _ htarget
        rcases mem_cons.mp hlater with rfl | hlater
        · exact hfirst
        · have htail := (pairwise_cons.mp ih).1 later hlater
          exact hfirst.trans (htail.2 header hheader hcredential)
    · exact absurd hcredential (hstripped header (hsub.subset hheader))

end Followed

/-- A fetch makes at most 21 hops, each to a host of the allowlist. Of two hops the later one
has no header the earlier had not, and it has an authorization header or one made from a secret
only if both have one origin. -/
theorem credentials_stay_on_origin (ctx : FetchContext) (replies : ℕ → HopReply)
    (method url headersJson : String) (body : List UInt8) :
    let hops := (outboundFetch ctx replies method url headersJson body).1
    hops.length ≤ 21 ∧
    (∀ hop ∈ hops, ∀ allowed, ctx.hosts = some allowed →
      ∃ pattern ∈ allowed, normalizeHost pattern = normalizeHost hop.host) ∧
    hops.Pairwise fun earlier later =>
      later.headers.Sublist earlier.headers ∧
      ∀ header ∈ later.headers, (asciiLowercase header.1 = "authorization" ∨
          ∃ pairs, ctx.libraries.parsePairs headersJson = .ok pairs ∧
            Resolved ctx.secrets pairs header) →
        earlier.origin = later.origin := by
  intro hops
  simp only [hops]
  unfold outboundFetch
  cases hstart : start ctx method url headersJson body with
  | error => exact ⟨zero_le 21, by simp, Pairwise.nil⟩
  | ok =>
    simp only [start, bind_ok, pure_ok] at hstart
    obtain ⟨method', -, headers, hheaders, body', -, rfl⟩ := hstart
    have hhops := fetchLoop_followed ctx replies (maxRedirects + 1) 0
      ⟨method', url, headers, body'⟩
    refine ⟨hhops.length_le, fun hop hhop allowed hallowed => ?_, ?_⟩
    · have hchecked := hhops.checked hop hhop
      simp only [checkHost, hallowed, bind_ok, reject_ok] at hchecked
      obtain ⟨-, -, hpattern⟩ := hchecked
      simpa using hpattern
    refine hhops.confined.imp_of_mem ?_
    rintro _ later - hlater ⟨hsub, hconfined⟩
    refine ⟨hsub, fun header hheader hcredential => hconfined header hheader ?_⟩
    rcases hcredential with hauth | ⟨_, hpairs, hresolved⟩
    · exact .inl hauth
    have hsent := (hhops.sublist later hlater).subset hheader
    unfold expandHeadersJsonWith at hheaders
    split at hheaders
    · obtain rfl := ok.inj hheaders
      cases hsent
    rw [bind_ok] at hheaders
    obtain ⟨_, hparsed, hfold⟩ := hheaders
    obtain rfl := ok.inj (hpairs.symm.trans (mapError_ok.mp hparsed))
    obtain ⟨w, hpair, hstore, -⟩ := hresolved
    refine .inr ((secretNames_of_fold hfold).2 (header.1, w) hpair
      (skip_false_of_fold hfold header hsent) ?_)
    -- Only a value the handle test recognises takes anything from the store.
    by_contra hplain
    rw [Bool.not_eq_true] at hplain
    exact hstore ⟨w, fun secrets => expand_plain hplain (resolve secrets)⟩

end Tysel.Fetch
