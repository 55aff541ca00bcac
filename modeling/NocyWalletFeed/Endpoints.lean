import NocyWalletFeed.Library.Replace

/-!
# Upstream endpoints (`upstream.rs`, `graphql_ws.rs`, `merkle_cache.rs`)

One setting names the upstream. The HTTP client derives its GraphQL endpoint from it, and accepts a base as well as an
endpoint; the two WebSocket clients derive their URLs from it on their own, and expect a base.

* `graphqlEndpoint`, `SubscriptionManager.wsUrl`, `MerkleCacheManager.wsUrl` : the three derivations;
* `toWebSocket` : a URL with `ws` for `http`; `webSocketChars_append` : part by part;
* `EndpointsAgree`, `endpointsAgree_iff` : when the WebSocket URLs are that of the endpoint.
-/

namespace NocyWalletFeed
open Replace

/-! ## Strings -/

/-- `str::replace` -/
def replaceString (text pattern replacement : String) : String :=
  String.ofList (replace pattern.toList replacement.toList text.toList)

/-- `trim_end_matches('/')` -/
def trimEndSlashes (text : String) : String := String.ofList (trimEnd '/' text.toList)

/-- `str::ends_with` -/
def endsWith (text ending : String) : Bool := ending.toList.isSuffixOf text.toList

theorem endsWith_iff {text ending : String} : endsWith text ending = true ↔ ending.toList <:+ text.toList :=
  List.isSuffixOf_iff_suffix

/-! ## The derivations -/

/-- `UpstreamClient::graphql_endpoint` -/
def graphqlEndpoint (baseUrl : String) : String :=
  let base := trimEndSlashes baseUrl
  if endsWith base "/graphql" then base
  else if endsWith base "/api/v3" then base ++ "/graphql"
  else base ++ "/api/v3/graphql"

/-- `.replace("https://", "wss://").replace("http://", "ws://")` -/
def toWebSocket (url : String) : String := replaceString (replaceString url "https://" "wss://") "http://" "ws://"

/-- The URL that either WebSocket client derives from the setting. -/
def wsUrlOf (upstreamIndexerUrl : String) : String :=
  trimEndSlashes (toWebSocket upstreamIndexerUrl) ++ "/api/v3/graphql/ws"

def SubscriptionManager.wsUrl (upstreamIndexerUrl : String) : String := wsUrlOf upstreamIndexerUrl

def MerkleCacheManager.wsUrl (upstreamIndexerUrl : String) : String := wsUrlOf upstreamIndexerUrl

/-- Both WebSocket URLs are the endpoint with `ws` for `http` and `/ws` behind it. -/
structure EndpointsAgree (url : String) : Prop where
  subscriptions : SubscriptionManager.wsUrl url = toWebSocket (graphqlEndpoint url) ++ "/ws"
  merkleCache : MerkleCacheManager.wsUrl url = toWebSocket (graphqlEndpoint url) ++ "/ws"

/-- A scheme without its slashes. -/
def EndsInScheme (url : String) : Prop := endsWith url "http:" = true ∨ endsWith url "https:" = true

/-- The setting is a base: what is left of it without the slashes at its end is no endpoint and no `/api/v3`, and where
this is the end of a scheme, at most one slash is missing. -/
structure IsBase (url : String) : Prop where
  noEndpoint : endsWith (trimEndSlashes url) "/graphql" = false
  noVersion : endsWith (trimEndSlashes url) "/api/v3" = false
  noScheme : EndsInScheme (trimEndSlashes url) → url.length ≤ (trimEndSlashes url).length + 1

/-! ## Replacing the scheme -/

def webSocketChars (chars : List Char) : List Char :=
  replace "http://".toList "ws://".toList (replace "https://".toList "wss://".toList chars)

theorem toList_toWebSocket (url : String) : (toWebSocket url).toList = webSocketChars url.toList := by
  simp only [toWebSocket, replaceString, String.toList_ofList, webSocketChars]

/-- The end of a scheme, without its slashes. -/
def SchemeEnd (chars : List Char) : Prop := "http:".toList <:+ chars ∨ "https:".toList <:+ chars

theorem getLast?_of_schemeEnd {chars : List Char} (h : SchemeEnd chars) : chars.getLast? = some ':' := by
  rcases h with ⟨front, rfl⟩ | ⟨front, rfl⟩
  · simp
  · simp

section Parts
variable {front back : List Char}

/-- A scheme lies across two parts at its colon only, unless the first one ends in a slash. -/
theorem schemeEnd_of_straddles {scheme : List Char} (hscheme : scheme = "http://".toList ∨ scheme = "https://".toList)
    (hlast : front.getLast? ≠ some '/') (hhead : ∀ c ∈ back.head?, c = '/') (h : Straddles scheme front back) :
    SchemeEnd front ∧ ['/', '/'] <+: back := by
  obtain ⟨left, right, hleft, hright, heq, hfront, hback⟩ := h
  obtain ⟨d, right', rfl⟩ := List.exists_cons_of_ne_nil hright
  have hd : d = '/' := by
    obtain ⟨rest, rfl⟩ := hback
    exact hhead d rfl
  have hleftLast : left.getLast? ≠ some '/' := by
    obtain ⟨before, rfl⟩ := hfront
    rw [List.getLast?_append_of_ne_nil _ hleft] at hlast
    exact hlast
  have hall : ∀ scheme ∈ ["http://".toList, "https://".toList], ∀ k < scheme.length,
      (scheme.drop k).head? = some '/' → (scheme.take k).getLast? ≠ some '/' →
        (scheme.take k = "http:".toList ∨ scheme.take k = "https:".toList) ∧ scheme.drop k = ['/', '/'] := by decide
  have hmem : scheme ∈ ["http://".toList, "https://".toList] := by
    rcases hscheme with rfl | rfl
    · exact List.mem_cons_self
    · exact List.mem_cons_of_mem _ List.mem_cons_self
  have htake : scheme.take left.length = left := by rw [heq, List.take_left]
  have hdrop : scheme.drop left.length = d :: right' := by rw [heq, List.drop_left]
  have hlength : left.length < scheme.length := by
    rw [heq, List.length_append, List.length_cons]
    omega
  have hparts := hall scheme hmem left.length hlength
  rw [htake, hdrop, hd] at hparts
  obtain ⟨hcolon, hslashes⟩ := hparts rfl hleftLast
  rw [hd, hslashes] at hback
  refine ⟨?_, hback⟩
  rcases hcolon with rfl | rfl
  · exact Or.inl hfront
  · exact Or.inr hfront

theorem schemeEnd_of_replace (h : SchemeEnd (replace "https://".toList "wss://".toList front)) : SchemeEnd front := by
  have hreplacement : "wss://".toList = "wss:/".toList ++ ['/'] := by decide
  rw [hreplacement] at h
  exact h.imp (suffix_of_suffix_replace (by decide) (by decide)) (suffix_of_suffix_replace (by decide) (by decide))

theorem webSocketChars_append (hlast : front.getLast? ≠ some '/') (hhead : ∀ c ∈ back.head?, c = '/')
    (hend : SchemeEnd front → ¬ ['/', '/'] <+: back) (hback : ¬ "http".toList <:+: back) :
    webSocketChars (front ++ back) = webSocketChars front ++ back := by
  have hnames : "http".toList <:+: "http://".toList ∧ "http".toList <:+: "https://".toList := by decide
  have hhttp : ¬ "http://".toList <:+: back := fun h => hback (hnames.1.trans h)
  have hhttps : ¬ "https://".toList <:+: back := fun h => hback (hnames.2.trans h)
  have hlast' : (replace "https://".toList "wss://".toList front).getLast? ≠ some '/' := by
    rw [getLast?_replace (by decide) (by decide)]
    exact hlast
  unfold webSocketChars
  rw [replace_append (by decide) fun h => ?_, replace_eq_self hhttps, replace_append (by decide) fun h => ?_,
    replace_eq_self hhttp]
  · obtain ⟨hscheme, hslashes⟩ := schemeEnd_of_straddles (Or.inl rfl) hlast' hhead h
    exact hend (schemeEnd_of_replace hscheme) hslashes
  · obtain ⟨hscheme, hslashes⟩ := schemeEnd_of_straddles (Or.inr rfl) hlast hhead h
    exact hend hscheme hslashes

theorem getLast?_webSocketChars (chars : List Char) : (webSocketChars chars).getLast? = chars.getLast? := by
  rw [webSocketChars, getLast?_replace (by decide) (by decide), getLast?_replace (by decide) (by decide)]

/-- A scheme can begin only with its first letter. -/
theorem webSocketChars_append_scheme (front back : List Char) :
    webSocketChars (front ++ 'h' :: back) = webSocketChars front ++ webSocketChars ('h' :: back) := by
  unfold webSocketChars
  rw [replace_append (by decide) (not_straddles_of_head (by decide))]
  have hhead : ∃ c rest, replace "https://".toList "wss://".toList ('h' :: back) = c :: rest ∧
      c ∉ "http://".toList.tail := by
    by_cases hprefix : "https://".toList <+: 'h' :: back
    · obtain ⟨rest, hrest⟩ := hprefix
      rw [← hrest, replace_append_left (by decide)]
      exact ⟨'w', _, rfl, by decide⟩
    · rw [replace_cons hprefix]
      exact ⟨'h', _, rfl, by decide⟩
  obtain ⟨c, rest, heq, hc⟩ := hhead
  rw [heq, replace_append (by decide) (not_straddles_of_head hc)]

/-- A text does not have a pattern with a letter that neither the text before its slashes has. -/
theorem not_infix_append_slashes {pattern text : List Char} {c : Char} (hpattern : c ∈ pattern) (htext : c ∉ text)
    (hc : c ≠ '/') (n : Nat) : ¬ pattern <:+: text ++ List.replicate n '/' := by
  intro h
  rcases List.mem_append.mp (h.subset hpattern) with hmem | hmem
  · exact htext hmem
  · exact hc (List.eq_of_mem_replicate hmem)

theorem webSocketChars_http (n : Nat) :
    webSocketChars ("http:".toList ++ List.replicate (n + 2) '/') = "ws:".toList ++ List.replicate (n + 2) '/' := by
  have hin : "http:".toList ++ List.replicate (n + 2) '/' = "http://".toList ++ List.replicate n '/' := rfl
  have hout : "ws:".toList ++ List.replicate (n + 2) '/' = "ws://".toList ++ List.replicate n '/' := rfl
  have hs : ¬ "https://".toList <:+: "http://".toList ++ List.replicate n '/' :=
    not_infix_append_slashes (c := 's') (by decide) (by decide) (by decide) n
  have hslashes : ¬ "http://".toList <:+: [] ++ List.replicate n '/' :=
    not_infix_append_slashes (c := 'h') (by decide) (by decide) (by decide) n
  rw [hin, hout, webSocketChars, replace_eq_self hs, replace_append_left (by decide)]
  exact congrArg _ (replace_eq_self hslashes)

theorem webSocketChars_https (n : Nat) :
    webSocketChars ("https:".toList ++ List.replicate (n + 2) '/') = "wss:".toList ++ List.replicate (n + 2) '/' := by
  have hin : "https:".toList ++ List.replicate (n + 2) '/' = "https://".toList ++ List.replicate n '/' := rfl
  have hout : "wss:".toList ++ List.replicate (n + 2) '/' = "wss://".toList ++ List.replicate n '/' := rfl
  have hslashes : ¬ "https://".toList <:+: [] ++ List.replicate n '/' :=
    not_infix_append_slashes (c := 'h') (by decide) (by decide) (by decide) n
  have hreplaced : replace "https://".toList "wss://".toList ("https://".toList ++ List.replicate n '/') =
      "wss://".toList ++ List.replicate n '/' := by
    rw [replace_append_left (by decide)]
    exact congrArg _ (replace_eq_self hslashes)
  have hh : ¬ "http://".toList <:+: "wss://".toList ++ List.replicate n '/' :=
    not_infix_append_slashes (c := 'h') (by decide) (by decide) (by decide) n
  rw [hin, hout, webSocketChars, hreplaced, replace_eq_self hh]

/-- A scheme that its slashes complete becomes another text, without them as well. -/
theorem trimEnd_webSocketChars_append_ne (before rest : List Char) {socket : List Char} {n : Nat}
    (hscheme : webSocketChars ('h' :: rest) = 'h' :: rest)
    (hsocket : webSocketChars ('h' :: rest ++ List.replicate n '/') = socket ++ List.replicate n '/')
    (hlast : socket.getLast? = some ':') (hne : socket ≠ 'h' :: rest) :
    trimEnd '/' (webSocketChars (before ++ 'h' :: rest ++ List.replicate n '/')) ≠
      webSocketChars (before ++ 'h' :: rest) := by
  have hcompleted : webSocketChars (before ++ 'h' :: rest ++ List.replicate n '/') =
      webSocketChars before ++ socket ++ List.replicate n '/' := by
    rw [List.append_assoc, List.append_assoc, ← hsocket]
    exact webSocketChars_append_scheme before (rest ++ List.replicate n '/')
  have hcolon : (webSocketChars before ++ socket).getLast? ≠ some '/' := by
    rw [List.getLast?_append, hlast]
    simp
  rw [webSocketChars_append_scheme, hscheme, hcompleted, trimEnd_append_replicate, trimEnd_eq_self hcolon, Ne,
    List.append_cancel_left_eq]
  exact hne

/-- Slashes behind the end of a scheme complete it. -/
theorem trimEnd_webSocketChars_ne (h : SchemeEnd front) (n : Nat) :
    trimEnd '/' (webSocketChars (front ++ List.replicate (n + 2) '/')) ≠ webSocketChars front := by
  rcases h with ⟨before, rfl⟩ | ⟨before, rfl⟩
  · exact trimEnd_webSocketChars_append_ne before "ttp:".toList rfl (webSocketChars_http n) (by decide) (by decide)
  · exact trimEnd_webSocketChars_append_ne before "ttps:".toList rfl (webSocketChars_https n) (by decide)
      (by decide)

theorem trimEnd_webSocketChars_eq (hlast : front.getLast? ≠ some '/') {n : Nat} (h : SchemeEnd front → n ≤ 1) :
    trimEnd '/' (webSocketChars (front ++ List.replicate n '/')) = webSocketChars front := by
  have hhead : ∀ c ∈ (List.replicate n '/').head?, c = '/' := by
    intro c hc
    exact List.eq_of_mem_replicate (List.mem_of_mem_head? hc)
  have hend : SchemeEnd front → ¬ ['/', '/'] <+: List.replicate n '/' := by
    intro hscheme hslashes
    have hlength := hslashes.length_le
    rw [List.length_replicate] at hlength
    exact absurd (h hscheme) (Nat.not_le.mpr hlength)
  have hhttp : ¬ "http".toList <:+: [] ++ List.replicate n '/' :=
    not_infix_append_slashes (c := 'h') (by decide) (by decide) (by decide) n
  rw [webSocketChars_append hlast hhead hend hhttp, trimEnd_append_replicate, trimEnd_eq_self]
  rw [getLast?_webSocketChars]
  exact hlast

end Parts

/-! ## The endpoints -/

/-- What the HTTP client puts behind the setting. -/
def endpointPath (base : List Char) : List Char :=
  if "/graphql".toList <:+ base then [] else if "/api/v3".toList <:+ base then "/graphql".toList
  else "/api/v3/graphql".toList

theorem toList_graphqlEndpoint (url : String) : (graphqlEndpoint url).toList =
    trimEnd '/' url.toList ++ endpointPath (trimEnd '/' url.toList) := by
  unfold graphqlEndpoint endpointPath
  dsimp only
  simp only [endsWith_iff, trimEndSlashes, String.toList_ofList]
  split_ifs
  · rw [String.toList_ofList, List.append_nil]
  · rw [String.toList_append, String.toList_ofList]
  · rw [String.toList_append, String.toList_ofList]

theorem webSocketChars_append_endpointPath {base : List Char} (hlast : base.getLast? ≠ some '/') :
    webSocketChars (base ++ endpointPath base) = webSocketChars base ++ endpointPath base := by
  unfold endpointPath
  split_ifs
  · rw [List.append_nil, List.append_nil]
  · exact webSocketChars_append hlast (fun _ hc => (Option.some.inj hc).symm) (fun _ => by decide) (by decide)
  · exact webSocketChars_append hlast (fun _ hc => (Option.some.inj hc).symm) (fun _ => by decide) (by decide)

/-- Only a base gets the path that the WebSocket clients always put behind it. -/
theorem endpointPath_eq_iff {base : List Char} : endpointPath base = "/api/v3/graphql".toList ↔
    ¬ "/graphql".toList <:+ base ∧ ¬ "/api/v3".toList <:+ base := by
  unfold endpointPath
  split_ifs with hendpoint hversion
  · exact iff_of_false (by decide) fun h => h.1 hendpoint
  · exact iff_of_false (by decide) fun h => h.2 hversion
  · exact iff_of_true rfl ⟨hendpoint, hversion⟩

theorem endpointsAgree_iff_chars (url : String) : EndpointsAgree url ↔
    trimEnd '/' (webSocketChars url.toList) ++ "/api/v3/graphql/ws".toList =
      webSocketChars (graphqlEndpoint url).toList ++ "/ws".toList := by
  have hsame : EndpointsAgree url ↔ wsUrlOf url = toWebSocket (graphqlEndpoint url) ++ "/ws" :=
    ⟨fun h => h.subscriptions, fun h => ⟨h, h⟩⟩
  rw [hsame, ← String.toList_inj, wsUrlOf, String.toList_append, String.toList_append, toList_toWebSocket,
    trimEndSlashes, String.toList_ofList, toList_toWebSocket]

theorem isBase_iff_chars (url : String) : IsBase url ↔
    endpointPath (trimEnd '/' url.toList) = "/api/v3/graphql".toList ∧
      (SchemeEnd (trimEnd '/' url.toList) → url.toList.length ≤ (trimEnd '/' url.toList).length + 1) := by
  have hbase : (trimEndSlashes url).toList = trimEnd '/' url.toList := by rw [trimEndSlashes, String.toList_ofList]
  rw [endpointPath_eq_iff, ← hbase, String.length_toList, String.length_toList]
  simp only [← endsWith_iff, Bool.not_eq_true]
  constructor
  · intro h
    exact ⟨⟨h.noEndpoint, h.noVersion⟩, fun hscheme => h.noScheme (hscheme.imp endsWith_iff.mpr endsWith_iff.mpr)⟩
  · rintro ⟨⟨hendpoint, hversion⟩, hscheme⟩
    exact ⟨hendpoint, hversion, fun hends => hscheme (hends.imp endsWith_iff.mp endsWith_iff.mp)⟩

/-- **The WebSocket URLs are that of the endpoint exactly for a base**: for no setting that is an endpoint already, or
ends in `/api/v3`, or in a scheme. -/
theorem endpointsAgree_iff (url : String) : EndpointsAgree url ↔ IsBase url := by
  rw [endpointsAgree_iff_chars, isBase_iff_chars, toList_graphqlEndpoint]
  obtain ⟨⟨n, hurl⟩, hlast⟩ := exists_trimEnd '/' url.toList
  generalize trimEnd '/' url.toList = base at hurl hlast
  have hlength : url.toList.length = base.length + n := by rw [hurl, List.length_append, List.length_replicate]
  have hpath : "/api/v3/graphql/ws".toList = "/api/v3/graphql".toList ++ "/ws".toList := by decide
  rw [hlength, webSocketChars_append_endpointPath hlast, hurl, hpath, ← List.append_assoc, List.append_cancel_right_eq]
  by_cases hscheme : SchemeEnd base → n ≤ 1
  · rw [trimEnd_webSocketChars_eq hlast hscheme, List.append_cancel_left_eq]
    constructor
    · intro h
      exact ⟨h.symm, fun hend => Nat.add_le_add_left (hscheme hend) _⟩
    · rintro ⟨h, -⟩
      exact h.symm
  · obtain ⟨hend, hn⟩ := Classical.not_imp.mp hscheme
    obtain ⟨m, rfl⟩ := Nat.exists_eq_add_of_le' (Nat.not_le.mp hn)
    refine iff_of_false (fun h => ?_) fun h => absurd (h.2 hend) (by omega)
    -- a base that ends in a colon gets the path, so that the texts before it would be equal
    have hbase : endpointPath base = "/api/v3/graphql".toList := by
      have hcolon := getLast?_of_schemeEnd hend
      refine endpointPath_eq_iff.mpr ⟨?_, ?_⟩
      · rintro ⟨front, rfl⟩
        simp at hcolon
      · rintro ⟨front, rfl⟩
        simp at hcolon
    rw [hbase, List.append_cancel_right_eq] at h
    exact trimEnd_webSocketChars_ne hend m h

example : SubscriptionManager.wsUrl "https://indexer.example.com/" = "wss://indexer.example.com/api/v3/graphql/ws" := by
  decide

/-- A setting that names the version of the API: sessions work, and the WebSocket clients call another URL. -/
theorem not_endpointsAgree_versionedBase :
    graphqlEndpoint "http://indexer:8088/api/v3" = "http://indexer:8088/api/v3/graphql" ∧
      toWebSocket "http://indexer:8088/api/v3/graphql" = "ws://indexer:8088/api/v3/graphql" ∧
      SubscriptionManager.wsUrl "http://indexer:8088/api/v3" = "ws://indexer:8088/api/v3/api/v3/graphql/ws" ∧
      MerkleCacheManager.wsUrl "http://indexer:8088/api/v3" = "ws://indexer:8088/api/v3/api/v3/graphql/ws" ∧
      ¬ EndpointsAgree "http://indexer:8088/api/v3" := by
  refine ⟨by decide, by decide, by decide, by decide, fun h => ?_⟩
  have hws := h.subscriptions
  revert hws
  decide

end NocyWalletFeed
