import Courier.Endpoint.Uri

/-!
# What a connection URI identifies

A reader takes a URI apart where the delimiters first stand (`Endpoint.ofUri?_eq_some_iff`), so the
URI of an endpoint names that endpoint exactly when its user, password and virtual host hold no
character that a delimiter or an escape is made of (`Endpoint.ofUri?_uri`).
-/

namespace Courier

/-! ## Splitting and escapes -/

theorem splitAtFirst?_cons_self (c : Char) (cs : List Char) :
    splitAtFirst? c (c :: cs) = some ([], cs) := by simp [splitAtFirst?]

theorem splitAtFirst?_cons_of_ne {a c : Char} (h : a ≠ c) (cs : List Char) :
    splitAtFirst? c (a :: cs) = (splitAtFirst? c cs).map fun (l, r) => (a :: l, r) := by
  simp only [splitAtFirst?, List.dropWhile_cons, List.takeWhile_cons, decide_eq_true h, if_true]
  cases cs.dropWhile fun b => decide (b ≠ c) <;> rfl

theorem splitAtFirst?_eq_some_iff {c : Char} {cs l r : List Char} :
    splitAtFirst? c cs = some (l, r) ↔ c ∉ l ∧ cs = l ++ c :: r := by
  induction cs generalizing l with
  | nil => simp [splitAtFirst?]
  | cons a rest ih =>
    by_cases ha : a = c
    · subst ha
      rw [splitAtFirst?_cons_self]
      cases l with
      | nil => simp
      | cons b l => grind
    · rw [splitAtFirst?_cons_of_ne ha]
      simp only [Option.map_eq_some_iff, Prod.exists, Prod.mk.injEq]
      cases l with
      | nil => simp [ha]
      | cons b l => grind

theorem append_cons_unique {c : Char} {l l' r r' : List Char} (hl : c ∉ l) (hl' : c ∉ l')
    (h : l ++ c :: r = l' ++ c :: r') : l = l' ∧ r = r' := by
  have first : splitAtFirst? c (l ++ c :: r) = some (l, r) := splitAtFirst?_eq_some_iff.2 ⟨hl, rfl⟩
  rw [splitAtFirst?_eq_some_iff.2 ⟨hl', h⟩] at first
  exact (Prod.mk.inj (Option.some.inj first)).imp Eq.symm Eq.symm

/-- What stands before the first `c` is the beginning of what stands before any `c`. -/
theorem prefix_of_append_cons {c : Char} {l l' r r' : List Char} (hl : c ∉ l)
    (h : l ++ c :: r = l' ++ c :: r') : ∃ more, l' = l ++ more := by
  obtain ⟨more, rfl, -⟩ | ⟨more, rfl, hmore⟩ := List.append_eq_append_iff.1 h
  · exact ⟨more, rfl⟩
  · cases more with
    | nil => exact ⟨[], by simp⟩
    | cons d more =>
      obtain rfl : c = d := (List.cons.inj hmore).1
      exact (hl (by simp)).elim

theorem expect_eq_some_iff {word cs rest : List Char} :
    Json.expect word cs = some rest ↔ cs = word ++ rest := by
  induction word generalizing cs with
  | nil => simp [Json.expect]
  | cons w word ih =>
    cases cs with
    | nil => simp [Json.expect]
    | cons c cs =>
      simp only [Json.expect, List.cons_append, List.cons.injEq, Option.ite_none_right_eq_some, ih]
      exact and_congr_left' eq_comm

theorem size_utf8Encode_cons (c : Char) (cs : List Char) :
    (c :: cs).utf8Encode.size = c.utf8Size + cs.utf8Encode.size := by
  rw [List.utf8Encode_cons, ByteArray.size_append, List.utf8Encode_singleton,
    List.size_toByteArray, String.length_utf8EncodeChar]

/-- No text stands for more bytes than it has, and one with an escape stands for fewer. -/
theorem length_percentBytes {cs : List Char} {bytes : List UInt8}
    (h : percentBytes? cs = some bytes) :
    bytes.length ≤ cs.utf8Encode.size ∧ ('%' ∈ cs → bytes.length < cs.utf8Encode.size) := by
  induction cs using percentBytes?.induct generalizing bytes with
  | case1 =>
    obtain rfl : [] = bytes := Option.some.inj h
    simp
  | case2 a b rest n tail hrest hn ih =>
    obtain rfl : UInt8.ofNat n :: tail = bytes := by simpa [percentBytes?, hn, hrest] using h
    have := (ih hrest).1
    have := Char.utf8Size_pos a
    have := Char.utf8Size_pos b
    simp only [size_utf8Encode_cons, List.length_cons]
    omega
  | case3 a b rest hno =>
    rw [percentBytes?] at h
    split at h
    next n tail hn hrest => exact (hno n tail hn hrest).elim
    next => cases h
  | case4 rest hno => simp [percentBytes?] at h
  | case5 c rest hshort hc ih =>
    rw [percentBytes?.eq_3 c rest hshort, if_neg hc] at h
    obtain ⟨tail, hrest, rfl⟩ := Option.map_eq_some_iff.1 h
    obtain ⟨hle, hlt⟩ := ih hrest
    rw [List.length_append, String.length_utf8EncodeChar, size_utf8Encode_cons]
    refine ⟨by omega, fun hmem => ?_⟩
    have := hlt ((List.mem_cons.1 hmem).resolve_left (Ne.symm hc))
    omega

theorem percentBytes?_of_not_mem {cs : List Char} (h : '%' ∉ cs) :
    percentBytes? cs = some (cs.flatMap String.utf8EncodeChar) := by
  induction cs with
  | nil => rfl
  | cons c rest ih =>
    obtain ⟨hc, hrest⟩ := not_or.1 (mt List.mem_cons.2 h)
    rw [percentBytes?.eq_3 c rest fun _ _ _ hp _ => hc hp.symm, if_neg (Ne.symm hc), ih hrest,
      Option.map_some, List.flatMap_cons]

/-- A text without a percent sign stands for itself. -/
theorem percentDecode?_of_not_mem {cs : List Char} (h : '%' ∉ cs) :
    percentDecode? cs = some (String.ofList cs) := by
  have bytes : ByteArray.mk (cs.flatMap String.utf8EncodeChar).toArray
      = (String.ofList cs).toByteArray := by
    rw [String.toByteArray_ofList, List.utf8Encode]
    apply ByteArray.ext
    exact List.data_toByteArray.symm
  simp only [percentDecode?, percentBytes?_of_not_mem h, bytes, Option.bind_eq_bind,
    Option.bind_some]
  exact dif_pos (String.ofList cs).isValidUTF8

theorem percentDecode?_toList {t : String} (h : '%' ∉ t.toList) :
    percentDecode? t.toList = some t :=
  (percentDecode?_of_not_mem h).trans (congrArg some String.ofList_toList)

/-- The default virtual host is the one text that is written escaped. -/
theorem percentDecode?_default : percentDecode? "%2f".toList = some "/" := by decide

/-- What a text stands for begins with the text only if it is the text, without an escape. -/
theorem percentDecode?_append {l more : List Char} {t : String} (h : percentDecode? l = some t)
    (ht : t.toList = l ++ more) : '%' ∉ l ∧ more = [] := by
  obtain ⟨bytes, hbytes, hdecoded⟩ := Option.bind_eq_some_iff.1 h
  have size : bytes.length = l.utf8Encode.size + more.utf8Encode.size := by
    obtain ⟨hvalid, htext⟩ := Option.dite_none_right_eq_some.1 hdecoded
    obtain rfl := Option.some.inj htext
    rw [← ByteArray.size_append, ← List.utf8Encode_append, ← ht, String.utf8Encode_toList]
    rfl
  obtain ⟨hle, hlt⟩ := length_percentBytes hbytes
  refine ⟨fun hmem => ?_, ?_⟩
  · have := hlt hmem
    omega
  · cases more with
    | nil => rfl
    | cons c more =>
      have := Char.utf8Size_pos c
      rw [size_utf8Encode_cons] at size
      omega

/-- A text that reads back up to its first delimiter is all that stands before it. -/
theorem eq_of_percentDecode {c : Char} {l r r' : List Char} {t : String} (hl : c ∉ l)
    (hd : percentDecode? l = some t) (h : l ++ c :: r = t.toList ++ c :: r') :
    t.toList = l ∧ '%' ∉ l ∧ r = r' := by
  obtain ⟨more, ht⟩ := prefix_of_append_cons hl h
  obtain ⟨percent, rfl⟩ := percentDecode?_append hd ht
  rw [ht, List.append_nil] at h
  exact ⟨by rw [ht, List.append_nil], percent, (List.cons.inj (List.append_cancel_left h)).2⟩

/-! ## Parts of a URI -/

/-- The parts of a connection URI as they stand in it. -/
structure UriParts where
  user : List Char
  password : List Char
  host : List Char
  port : List Char
  path : List Char

namespace UriParts

/-- What every connection URI begins with. -/
def scheme : List Char := "amqp://".toList

/-- The URI with these parts. -/
def chars (p : UriParts) : List Char :=
  scheme ++ (p.user ++ ':' :: (p.password ++ '@' ::
    (p.host ++ ':' :: (p.port ++ '/' :: p.path))))

/-- No part but the path holds a delimiter that ends it. -/
structure Apart (p : UriParts) : Prop where
  user_colon : ':' ∉ p.user
  user_at : '@' ∉ p.user
  password_at : '@' ∉ p.password
  host_colon : ':' ∉ p.host
  host_slash : '/' ∉ p.host
  port_slash : '/' ∉ p.port

/-- What a path names, the empty one the default virtual host. -/
def namedVhost (vhost : String) : String := if vhost = "" then "/" else vhost

/-- The parts name the endpoint. -/
structure Names (p : UriParts) (e : Endpoint) : Prop where
  user : percentDecode? p.user = some e.user
  password : percentDecode? p.password = some e.password
  host : String.ofList p.host = e.host
  port : natural? p.port = some e.port.toNat
  vhost : ∃ vhost, percentDecode? p.path = some vhost ∧ namedVhost vhost = e.vhost

end UriParts

/-- A URI names an endpoint if its parts do, taken apart where the delimiters first stand. -/
theorem Endpoint.ofUri?_eq_some_iff {uri : String} {e : Endpoint} :
    Endpoint.ofUri? uri = some e ↔ ∃ p : UriParts, p.Apart ∧ uri.toList = p.chars ∧ p.Names e := by
  simp only [ofUri?, Option.bind_eq_bind, Option.bind_eq_some_iff, Prod.exists,
    splitAtFirst?_eq_some_iff, expect_eq_some_iff]
  constructor
  · rintro ⟨_, huri, info, _, ⟨hinfo, rfl⟩, user, password, ⟨huser, rfl⟩, authority, path,
      ⟨hauthority, rfl⟩, host, port, ⟨hhost, rfl⟩, n, hn, vhost, hvhost, h⟩
    obtain ⟨small, h⟩ := Option.ite_none_right_eq_some.1 h
    obtain ⟨u, hu, h⟩ := Option.bind_eq_some_iff.1 h
    obtain ⟨w, hw, h⟩ := Option.bind_eq_some_iff.1 h
    obtain rfl := Option.some.inj h
    simp only [List.mem_append, List.mem_cons, not_or] at hinfo hauthority
    simp only [List.append_assoc, List.cons_append] at huri
    exact ⟨⟨user, password, host, port, path⟩,
      ⟨huser, hinfo.1, hinfo.2.2, hhost, hauthority.1, hauthority.2.2⟩, huri,
      ⟨hu, hw, rfl, hn.trans (congrArg some (UInt16.toNat_ofNat_of_lt' small).symm),
        vhost, hvhost, rfl⟩⟩
  · rintro ⟨⟨user, password, host, port, path⟩, apart, huri, names⟩
    obtain ⟨vhost, hvhost, hnamed⟩ := names.vhost
    have at_info : '@' ∉ user ++ ':' :: password := by
      simp [apart.user_at, apart.password_at]
    have slash_authority : '/' ∉ host ++ ':' :: port := by
      simp [apart.host_slash, apart.port_slash]
    refine ⟨_, huri, _, _, ⟨at_info, by rw [List.append_assoc, List.cons_append]⟩, user, password,
      ⟨apart.user_colon, rfl⟩, _, path, ⟨slash_authority, ?_⟩, host, port,
      ⟨apart.host_colon, rfl⟩, _, names.port, vhost, hvhost, ?_⟩
    · rw [List.append_assoc, List.cons_append]
    · rw [if_pos e.port.toNat_lt, names.user, names.password, names.host, UInt16.ofNat_toNat]
      obtain ⟨_⟩ := e
      exact congrArg (fun v => some (Endpoint.mk _ _ _ _ v)) hnamed

namespace Endpoint

variable {e : Endpoint}

/-- The host is made of letters, digits, dots, hyphens and underscores. -/
def PlainHost (e : Endpoint) : Prop :=
  ∀ c ∈ e.host.toList, c.isAlphanum ∨ c = '.' ∨ c = '-' ∨ c = '_'

instance : Decidable e.PlainHost := List.decidableBAll _ e.host.toList

/-- The endpoint with its virtual host by its full name. -/
def named (e : Endpoint) : Endpoint := { e with vhost := UriParts.namedVhost e.vhost }

/-- The texts of the endpoint hold no character that has a meaning of its own in their place. -/
structure Readable (e : Endpoint) : Prop where
  user_colon : ':' ∉ e.user.toList
  user_at : '@' ∉ e.user.toList
  user_percent : '%' ∉ e.user.toList
  password_at : '@' ∉ e.password.toList
  password_percent : '%' ∉ e.password.toList
  vhost_percent : '%' ∉ e.vhost.toList

/-- The parts that the URI is put together from. -/
def parts (e : Endpoint) : UriParts where
  user := e.user.toList
  password := e.password.toList
  host := e.host.toList
  port := digits e.port.toNat
  path := (uriPath e.vhost).toList

theorem toList_uri (e : Endpoint) : e.uri.toList = e.parts.chars := by
  have colon : ":".toList = [':'] := rfl
  have at_sign : "@".toList = ['@'] := rfl
  have slash : "/".toList = ['/'] := rfl
  unfold uri UriParts.chars UriParts.scheme
  simp only [parts, decimal, String.toList_append, String.toList_ofList, colon, at_sign, slash,
    List.append_assoc, List.cons_append, List.nil_append]

theorem host_free (h : e.PlainHost) {c : Char} (hc : c = ':' ∨ c = '/') : c ∉ e.host.toList := by
  intro hmem
  have := h c hmem
  obtain rfl | rfl := hc <;> revert this <;> decide

theorem port_free : '/' ∉ e.parts.port := fun h => by
  have := isDigit_of_mem_digits h
  revert this
  decide

theorem Readable.apart (r : e.Readable) (h : e.PlainHost) : e.parts.Apart where
  user_colon := r.user_colon
  user_at := r.user_at
  password_at := r.password_at
  host_colon := host_free h (.inl rfl)
  host_slash := host_free h (.inr rfl)
  port_slash := port_free

theorem Readable.names (r : e.Readable) : e.parts.Names e.named where
  user := percentDecode?_toList r.user_percent
  password := percentDecode?_toList r.password_percent
  host := String.ofList_toList
  port := natural?_digits _
  vhost := by
    unfold parts uriPath
    split
    next default =>
      refine ⟨"/", percentDecode?_default, ?_⟩
      obtain h | h := default <;> simp [named, UriParts.namedVhost, h]
    next => exact ⟨e.vhost, percentDecode?_toList r.vhost_percent, rfl⟩

theorem vhost_percent_of_path {path : List Char} {vhost v : String}
    (hpath : path = (uriPath vhost).toList) (hv : percentDecode? path = some v)
    (hnamed : UriParts.namedVhost v = UriParts.namedVhost vhost) : '%' ∉ vhost.toList := by
  unfold uriPath at hpath
  split at hpath
  next default => obtain rfl | rfl := default <;> decide
  next other =>
    obtain ⟨not_slash, not_empty⟩ := not_or.1 other
    rw [UriParts.namedVhost, UriParts.namedVhost, if_neg not_empty] at hnamed
    obtain rfl : v = vhost := by
      split at hnamed
      · exact (not_slash hnamed.symm).elim
      · exact hnamed
    exact hpath ▸ (percentDecode?_append hv (by rw [hpath, List.append_nil])).1

/-- If parts of the URI name the endpoint, they are those it is put together from, and no text of
the endpoint holds what would end it or stand for another. -/
theorem readable_of_names (h : e.PlainHost) {p : UriParts} (apart : p.Apart)
    (hp : p.chars = e.parts.chars) (names : p.Names e.named) : e.Readable := by
  obtain ⟨huser, user_percent, hp⟩ :=
    eq_of_percentDecode apart.user_colon names.user (List.append_cancel_left hp)
  obtain ⟨hpassword, password_percent, hp⟩ :=
    eq_of_percentDecode apart.password_at names.password hp
  obtain ⟨-, hp⟩ := append_cons_unique apart.host_colon (host_free h (.inl rfl)) hp
  obtain ⟨-, hpath⟩ := append_cons_unique apart.port_slash port_free hp
  obtain ⟨v, hv, hnamed⟩ := names.vhost
  exact
    { user_colon := huser ▸ apart.user_colon
      user_at := huser ▸ apart.user_at
      user_percent := huser ▸ user_percent
      password_at := hpassword ▸ apart.password_at
      password_percent := hpassword ▸ password_percent
      vhost_percent := vhost_percent_of_path hpath hv hnamed }

/-- The URI of an endpoint with a plain host reads back to the endpoint, its virtual host by its
full name, exactly if no text of it holds a character that has a meaning of its own in its place;
so two such endpoints with one URI differ at most in how they name the default virtual host. -/
theorem ofUri?_uri (h : e.PlainHost) : (ofUri? e.uri = some e.named ↔ e.Readable) ∧
    ∀ d : Endpoint, d.PlainHost → e.Readable → d.Readable → e.uri = d.uri → e.named = d.named := by
  have reads : ∀ {d : Endpoint}, d.PlainHost → d.Readable → ofUri? d.uri = some d.named :=
    fun plain r => ofUri?_eq_some_iff.2 ⟨_, r.apart plain, toList_uri _, r.names⟩
  refine ⟨⟨fun hread => ?_, reads h⟩, fun d plain re rd huri => ?_⟩
  · obtain ⟨p, apart, hp, names⟩ := ofUri?_eq_some_iff.1 hread
    exact readable_of_names h apart (hp.symm.trans (toList_uri e)) names
  · exact Option.some.inj ((reads h re).symm.trans ((congrArg ofUri? huri).trans (reads plain rd)))

theorem ofUri?_uri_orders : PlainHost { host := "rabbit", vhost := "orders" } ∧
    (ofUri? (uri { host := "rabbit", vhost := "orders" })
        = some (named { host := "rabbit", vhost := "orders" }) ↔
      Readable { host := "rabbit", vhost := "orders" }) ∧
    ∀ d : Endpoint, d.PlainHost → Readable { host := "rabbit", vhost := "orders" } → d.Readable →
      uri { host := "rabbit", vhost := "orders" } = d.uri →
      named { host := "rabbit", vhost := "orders" } = d.named :=
  have plain : PlainHost { host := "rabbit", vhost := "orders" } := by decide
  ⟨plain, ofUri?_uri plain⟩

/-- Texts stand in the URI unescaped: a colon in the user is read as its end, and a virtual host
whose name spells the escape of the default one is taken for it. -/
theorem uri_does_not_identify :
    ofUri? (uri { user := "a:b" }) = some { user := "a", password := "b:guest" } ∧
      uri { vhost := "%2f" } = uri { vhost := "/" } := by
  refine ⟨ofUri?_eq_some_iff.2 ⟨⟨['a'], "b:guest".toList, "127.0.0.1".toList, "5672".toList,
    "%2f".toList⟩, ?_, ?_, ?_⟩, ?_⟩
  · constructor <;> decide
  · decide
  · exact ⟨by decide, by decide, by decide, by decide, "/", by decide, by decide⟩
  · decide

end Endpoint

end Courier
