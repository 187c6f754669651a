import Lyslg.Http.DumpRoundTrip
import Lyslg.Uri.Division
/-!
# Printing a `Uri`

`toString` prints an authority, a path and what is not empty of the rest.  The machine accepts
that text, and `Create` makes the same `Uri` of it, unless the userinfo loses its first part
once more.
-/

namespace Lyslg.Uri

open Http UriParser
open scoped Http.ListMembers

/-! ## A userinfo that is cut twice -/

/-- A digit follows the first colon, and of the text from there on a digit follows the first
colon again. -/
def CutTwice (text : List UInt8) : Prop :=
  ∃ name d more, text = name ++ 58 :: d :: more ∧ (∀ c ∈ name, c ≠ 58) ∧ (48 ≤ d ∧ d ≤ 57) ∧
    DigitAfterColon (d :: more)

theorem savedUserinfo_of_cut {text : List UInt8} (h : DigitAfterColon text) :
    ∃ name d more, text = name ++ 58 :: d :: more ∧ (∀ c ∈ name, c ≠ 58) ∧ (48 ≤ d ∧ d ≤ 57) ∧
      savedUserinfo text = d :: more := by
  obtain ⟨name, d, more, rfl, hname, hd⟩ := h
  exact ⟨name, d, more, rfl, hname, hd, savedUserinfo_digit hname hd⟩

theorem savedUserinfo_twice (text : List UInt8) :
    savedUserinfo (savedUserinfo text) = savedUserinfo text ↔ ¬CutTwice text := by
  refine (savedUserinfo_eq_iff _).trans (not_congr ?_)
  by_cases hcut : DigitAfterColon text
  · constructor
    · intro h
      obtain ⟨name, d, more, rfl, hname, hd, hsaved⟩ := savedUserinfo_of_cut hcut
      rw [hsaved] at h
      exact ⟨name, d, more, rfl, hname, hd, h⟩
    · rintro ⟨name, d, more, rfl, hname, hd, h⟩
      rw [savedUserinfo_digit hname hd]
      exact h
  · rw [(savedUserinfo_eq_iff text).mpr hcut]
    refine iff_of_false hcut ?_
    rintro ⟨name, d, more, rfl, hname, hd, -⟩
    exact hcut ⟨name, d, more, rfl, hname, hd⟩

theorem savedUserinfo_suffix (text : List UInt8) : savedUserinfo text <:+ text := by
  by_cases hcut : DigitAfterColon text
  · obtain ⟨name, d, more, rfl, -, -, hsaved⟩ := savedUserinfo_of_cut hcut
    rw [hsaved]
    exact ⟨name ++ [58], List.append_assoc _ _ _⟩
  · rw [(savedUserinfo_eq_iff text).mpr hcut]

/-! ## The printed parts -/

/-- A part that is only printed when there is something of it. -/
def nonEmpty (text : List UInt8) : Option (List UInt8) := if text = [] then none else some text

theorem nonEmpty_getD (text : List UInt8) : (nonEmpty text).getD [] = text := by
  unfold nonEmpty
  split
  · rename_i h
    exact h.symm
  · rfl

theorem eq_of_mem_nonEmpty {text text' : List UInt8} (h : text ∈ nonEmpty text') :
    text' = text := by
  unfold nonEmpty at h
  split at h
  · cases h
  · exact Option.some.inj h

theorem mem_nonEmpty {part : Option (List UInt8)} {text : List UInt8}
    (h : text ∈ nonEmpty (part.getD [])) : text ∈ part := by
  unfold nonEmpty at h
  split at h
  · cases h
  · rename_i hne
    cases part with
    | none => exact absurd rfl hne
    | some text' => exact h

theorem optionalPart_nonEmpty (d : UInt8) (text : List UInt8) :
    optionalPart d (nonEmpty text) = (if text = [] then [] else [d]) ++ text := by
  unfold nonEmpty
  by_cases h : text = []
  · rw [if_pos h, if_pos h, h]
    rfl
  · rw [if_neg h, if_neg h]
    rfl

def printedPort (u : Uri) : Option (List UInt8) :=
  if u.isDefaultPort then none else some (dumpInt u.port)

theorem isDefaultPort_of_zero {u : Uri} (h : u.port = 0) : u.isDefaultPort = true := if_pos h

/-- A port that is printed is a numeral, whose value is the port. -/
theorem printedPort_spec {u : Uri} (hport : 0 ≤ u.port ∧ u.port ≤ 65535) :
    (∀ digits ∈ u.printedPort, ∀ c ∈ digits, 48 ≤ c ∧ c ≤ 57) ∧ u.printedPort ≠ some [] ∧
      (u.printedPort.map atoi).getD 0 = if u.isDefaultPort then 0 else u.port := by
  unfold printedPort
  by_cases hdefault : u.isDefaultPort
  · rw [if_pos hdefault, if_pos hdefault]
    exact ⟨by simp, by simp, rfl⟩
  · have hne : u.port ≠ 0 := fun h => hdefault (isDefaultPort_of_zero h)
    have hpos : 0 < u.port.toNat := by omega
    have hdump : dumpInt u.port = dumpNat u.port.toNat := if_neg (by omega)
    have hdigits := dumpNat_digits hpos
    rw [if_neg hdefault, if_neg hdefault, hdump]
    refine ⟨?_, ?_, ?_⟩
    · intro digits hmem
      obtain rfl := Option.some.inj hmem
      exact hdigits
    · exact fun h => dumpNat_ne_nil hpos (Option.some.inj h)
    · have hvalue : UriParts.numeral (dumpNat u.port.toNat) = u.port.toNat := dumpNat_value hpos
      show atoi (dumpNat u.port.toNat) = u.port
      rw [atoi_numeral hdigits (dumpNat_ne_nil hpos) (by omega), hvalue]
      omega

/-- The authority that is printed for another one is accepted if that one is. -/
theorem exists_printed_authority (a : Authority) {u : Uri}
    (huserinfo : u.userinfo = savedUserinfo (a.userinfo.getD []))
    (hport : 0 ≤ u.port ∧ u.port ≤ 65535) (hok : Ok 511 a.text) :
    ∃ a' : Authority, a'.userinfo = nonEmpty u.userinfo ∧ a'.host = a.host ∧
      a'.port = u.printedPort ∧ Ok 511 a'.text := by
  have hplain : ∀ text ∈ nonEmpty u.userinfo, ∀ c ∈ text, c ≠ 2 ∧ c ∉ chars "/?#[]@" := by
    intro text htext c hc
    have hmem : c ∈ a.userinfo.getD [] := by
      unfold nonEmpty at htext
      split at htext
      · cases htext
      · obtain rfl := Option.some.inj htext
        exact (savedUserinfo_suffix _).mem (huserinfo ▸ hc)
    cases hui : a.userinfo with
    | none =>
        rw [hui] at hmem
        cases hmem
    | some text' =>
        rw [hui] at hmem
        exact a.userinfo_plain text' hui c hmem
  refine ⟨⟨nonEmpty u.userinfo, a.host, u.printedPort, hplain, (printedPort_spec hport).1⟩,
    rfl, rfl,
    rfl, ?_⟩
  rw [ok_authority_text] at hok ⊢
  dsimp only
  cases hui : a.userinfo with
  | none =>
      rw [hui] at hok huserinfo
      have hempty : u.userinfo = [] := huserinfo
      rw [hempty]
      exact hok
  | some text =>
      rw [hui] at hok huserinfo
      obtain ⟨hleads, hhost⟩ := hok
      have huserinfo' : u.userinfo = savedUserinfo text := huserinfo
      by_cases hempty : u.userinfo = []
      · rw [nonEmpty, if_pos hempty]
        exact ok_without_userinfo (host_plain a.host) hhost
      · rw [nonEmpty, if_neg hempty, huserinfo']
        refine ⟨?_, hhost⟩
        have htext := a.userinfo_plain text hui
        by_cases hcut : DigitAfterColon text
        · obtain ⟨name, d, more, rfl, hname, hd, hsaved⟩ := savedUserinfo_of_cut hcut
          obtain ⟨hname', hmore⟩ := List.forall_mem_append.mp htext
          rw [hsaved]
          exact leads_cut (fun c hc => ⟨hname' c hc, hname c hc⟩) hd
            (fun c hc => (plain_sub c).2.1 (hmore c (by simp [hc])).2) hleads
        · rw [(savedUserinfo_eq_iff text).mpr hcut]
          exact hleads

/-- The `Uri` that `Create` makes of the printed one. -/
def printedAgain (u : Uri) : Uri :=
  { u with
    userinfo := savedUserinfo u.userinfo
    path := u.getPath
    port := if u.isDefaultPort then 0 else u.port }

/-- The authority that is printed for a `Uri`. -/
structure Prints (a : Authority) (u : Uri) : Prop where
  userinfo : a.userinfo = nonEmpty u.userinfo
  host : a.host.text = u.host
  port : a.port = u.printedPort

/-- The components are those of a text in parts. -/
structure Printable (u : Uri) : Prop where
  scheme_alpha : ∃ c ∈ u.scheme.head?, isAlpha c
  scheme_chars : ∀ c ∈ u.scheme, isSchemeChar c
  path_plain : ∀ c ∈ u.getPath, c ∉ chars "?#"
  path_slash : u.getPath = [] ∨ u.getPath.head? = some 47
  query_plain : ∀ c ∈ u.query, c ≠ 35
  fragment_plain : ∀ c ∈ u.fragment, c ≠ 35

def printedParts (u : Uri) (a : Authority) (h : u.Printable) : UriParts where
  scheme := u.scheme
  hierPart := .authority a u.getPath h.path_plain h.path_slash
  query := nonEmpty u.query
  fragment := nonEmpty u.fragment
  scheme_alpha := h.scheme_alpha
  scheme_chars := h.scheme_chars
  query_plain := fun _ htext => eq_of_mem_nonEmpty htext ▸ h.query_plain
  fragment_plain := fun _ htext => eq_of_mem_nonEmpty htext ▸ h.fragment_plain

section

variable {u : Uri} {a : Authority}

theorem printed_text (h : Prints a u) (hu : u.Printable) :
    (u.printedParts a hu).text = u.toString := by
  have hauthority : a.text = u.userinfo ++ (if u.userinfo = [] then [] else chars "@") ++ u.host ++
      (if u.isDefaultPort then [] else chars ":" ++ dumpInt u.port) := by
    rw [Authority.text, h.userinfo, h.host, h.port]
    have huserinfo : userinfoPart (nonEmpty u.userinfo) =
        u.userinfo ++ (if u.userinfo = [] then [] else chars "@") := by
      unfold nonEmpty
      by_cases hempty : u.userinfo = []
      · rw [if_pos hempty, if_pos hempty, hempty]
        rfl
      · rw [if_neg hempty, if_neg hempty]
        rfl
    have hport : optionalPart 58 u.printedPort =
        if u.isDefaultPort then [] else chars ":" ++ dumpInt u.port := by
      unfold printedPort
      split
      · rfl
      · rfl
    rw [huserinfo, hport]
  show u.scheme ++ chars ":" ++ (chars "//" ++ a.text ++ u.getPath) ++
    (optionalPart 63 (nonEmpty u.query) ++ optionalPart 35 (nonEmpty u.fragment)) = _
  rw [hauthority, optionalPart_nonEmpty, optionalPart_nonEmpty, toString,
    show chars "://" = chars ":" ++ chars "//" from rfl]
  simp only [List.append_assoc]
  rfl

theorem printed_uri (h : Prints a u) (hu : u.Printable) (hport : 0 ≤ u.port ∧ u.port ≤ 65535) :
    (u.printedParts a hu).uri = u.printedAgain := by
  have huserinfo : (a.userinfo.map savedUserinfo).getD [] = savedUserinfo u.userinfo := by
    rw [h.userinfo]
    unfold nonEmpty
    split
    · rename_i hempty
      rw [hempty]
      rfl
    · rfl
  show Uri.mk u.scheme ((a.userinfo.map savedUserinfo).getD []) a.host.text u.getPath
    ((nonEmpty u.query).getD []) ((nonEmpty u.fragment).getD []) ((a.port.map atoi).getD 0) = _
  rw [huserinfo, h.host, nonEmpty_getD, nonEmpty_getD, h.port, (printedPort_spec hport).2.2]
  rfl

/-- What is printed is accepted, when the authority, the path and the rest are. -/
theorem create_of_prints (h : Prints a u) (hu : u.Printable) (hport : 0 ≤ u.port ∧ u.port ≤ 65535)
    (hok : Ok 511 a.text) (hpath : PathOk u.getPath)
    (htail : TailOk (nonEmpty u.query) (nonEmpty u.fragment)) :
    create u.toString = some (some u.printedAgain) := by
  have haccepts : Accepts (u.printedParts a hu).text :=
    (accepts_text_iff _).mpr ⟨⟨hok, hpath⟩, htail⟩
  have hcreate := create_text _ haccepts
  rw [printed_text h, printed_uri h hu hport] at hcreate
  rw [hcreate]
  refine if_neg ?_
  show a.port ≠ some []
  rw [h.port]
  exact (printedPort_spec hport).2.1

end

theorem getPath_ok {u : Uri} (hplain : ∀ c ∈ u.path, c ∉ chars "?#")
    (hslash : u.path = [] ∨ u.path.head? = some 47) (hpath : PathOk u.path) :
    (∀ c ∈ u.getPath, c ∉ chars "?#") ∧ (u.getPath = [] ∨ u.getPath.head? = some 47) ∧
      PathOk u.getPath := by
  unfold getPath
  by_cases hempty : u.path = []
  · rw [if_pos hempty]
    refine ⟨by decide, .inr rfl, ?_⟩
    rintro rest hrest
    obtain rfl : rest = [] := (List.cons.inj hrest).2.symm
    exact ⟨513, .nil, by decide⟩
  · rw [if_neg hempty]
    exact ⟨hplain, hslash, hpath⟩

/-- `Create` accepts what is printed. -/
theorem create_toString {parts : UriParts} (h : Accepts parts.text)
    (hport : 0 ≤ parts.uri.port ∧ parts.uri.port ≤ 65535) :
    create parts.uri.toString = some (some parts.uri.printedAgain) := by
  have hok := (accepts_text_iff parts).mp h
  obtain ⟨scheme, hierPart, query, fragment, halpha, hchars, hquery, hfragment⟩ := parts
  have htail : TailOk (nonEmpty (query.getD [])) (nonEmpty (fragment.getD [])) :=
    ⟨fun text htext => hok.2.1 text (mem_nonEmpty htext),
      fun text htext => hok.2.2 text (mem_nonEmpty htext)⟩
  have hplain {part : Option (List UInt8)} (hpart : ∀ text ∈ part, ∀ c ∈ text, c ≠ 35) :
      ∀ c ∈ part.getD [], c ≠ 35 := by
    cases part with
    | none => simp
    | some text => exact hpart text rfl
  cases hierPart with
  | path whole hwhole hsingle =>
      let a : Authority := ⟨none, .name [] (by simp), none, by simp, by simp⟩
      have hprints : Prints a (UriParts.uri ⟨scheme, .path whole hwhole hsingle, query, fragment,
          halpha, hchars, hquery, hfragment⟩) := ⟨rfl, rfl, rfl⟩
      obtain ⟨hpathPlain, hslash, hpath⟩ := getPath_ok (u := UriParts.uri ⟨scheme,
          .path whole hwhole hsingle, query, fragment, halpha, hchars, hquery, hfragment⟩)
        (by simp [UriParts.uri]) (.inl rfl) (by rintro rest hrest; cases hrest)
      exact create_of_prints hprints
        ⟨halpha, hchars, hpathPlain, hslash, hplain hquery, hplain hfragment⟩ hport
        ⟨511, .nil, by decide⟩ hpath htail
  | authority a path hpathChars hslash =>
      have huserinfo : (a.userinfo.map savedUserinfo).getD [] =
          savedUserinfo (a.userinfo.getD []) := by
        cases a.userinfo <;> rfl
      obtain ⟨a', huser, hhost, hport', hok'⟩ := exists_printed_authority a
        (u := UriParts.uri ⟨scheme, .authority a path hpathChars hslash, query, fragment, halpha,
          hchars, hquery, hfragment⟩) huserinfo hport hok.1.1
      obtain ⟨hpathPlain, hslash', hpath⟩ := getPath_ok (u := UriParts.uri ⟨scheme,
        .authority a path hpathChars hslash, query, fragment, halpha, hchars, hquery, hfragment⟩)
        hpathChars hslash hok.1.2
      exact create_of_prints ⟨huser, congrArg Uri.Host.text hhost, hport'⟩
        ⟨halpha, hchars, hpathPlain, hslash', hplain hquery, hplain hfragment⟩ hport
        hok' hpath htail

/-! ## The normal form -/

structure SameComponents (v u : Uri) : Prop where
  scheme : v.getScheme = u.getScheme
  userinfo : v.getUserinfo = u.getUserinfo
  host : v.getHost = u.getHost
  port : v.getPort = u.getPort
  path : v.getPath = u.getPath
  query : v.getQuery = u.getQuery
  fragment : v.getFragment = u.getFragment

/-- What is printed is read as the same components, and printed in the same way. -/
def Normal (u : Uri) : Prop :=
  ∃ v, create u.toString = some (some v) ∧ SameComponents v u ∧ v.toString = u.toString

theorem getPath_ne_nil (u : Uri) : u.getPath ≠ [] := by
  unfold getPath
  split
  · decide
  · assumption

theorem printedAgain_getPath (u : Uri) : u.printedAgain.getPath = u.getPath :=
  if_neg (getPath_ne_nil u)

/-- A default port is that of the scheme. -/
theorem getPort_of_default {u : Uri} (h : u.isDefaultPort) :
    u.getPort = UriParts.schemePort u.scheme := by
  rw [getPort_eq]
  by_cases hzero : u.port = 0
  · exact if_pos hzero
  · rw [if_neg hzero]
    unfold isDefaultPort at h
    rw [if_neg hzero] at h
    unfold UriParts.schemePort
    split at h
    · rename_i hhttp
      rw [if_pos hhttp]
      exact of_decide_eq_true h
    · rename_i hhttp
      rw [if_neg hhttp]
      split at h
      · rename_i hhttps
        rw [if_pos hhttps]
        exact of_decide_eq_true h
      · cases h

theorem printedAgain_default (u : Uri) : u.printedAgain.isDefaultPort = u.isDefaultPort := by
  by_cases hdefault : u.isDefaultPort
  · rw [hdefault]
    exact isDefaultPort_of_zero (if_pos hdefault)
  · have hport : u.printedAgain.port = u.port := if_neg hdefault
    unfold isDefaultPort
    rw [hport]
    rfl

theorem printedAgain_getPort (u : Uri) : u.printedAgain.getPort = u.getPort := by
  by_cases hdefault : u.isDefaultPort
  · rw [getPort_of_default hdefault,
      getPort_of_default ((printedAgain_default u).trans hdefault)]
    rfl
  · have hport : u.printedAgain.port = u.port := if_neg hdefault
    rw [getPort_eq, getPort_eq, hport]
    rfl

theorem printedAgain_toString {u : Uri} (h : savedUserinfo u.userinfo = u.userinfo) :
    u.printedAgain.toString = u.toString := by
  have hport : (if u.printedAgain.isDefaultPort then [] else
      chars ":" ++ dumpInt u.printedAgain.port) =
        if u.isDefaultPort then [] else chars ":" ++ dumpInt u.port := by
    rw [printedAgain_default]
    by_cases hdefault : u.isDefaultPort
    · rw [if_pos hdefault, if_pos hdefault]
    · rw [if_neg hdefault, if_neg hdefault, show u.printedAgain.port = u.port from if_neg hdefault]
  have huserinfo : u.printedAgain.userinfo = u.userinfo := h
  unfold toString
  rw [hport, printedAgain_getPath, huserinfo]
  rfl

theorem normal_iff {u : Uri} (h : create u.toString = some (some u.printedAgain)) :
    u.Normal ↔ savedUserinfo u.userinfo = u.userinfo := by
  constructor
  · rintro ⟨v, hv, hsame, -⟩
    rw [h] at hv
    obtain rfl := Option.some.inj (Option.some.inj hv)
    exact hsame.userinfo
  · intro huserinfo
    refine ⟨u.printedAgain, h, ?_, printedAgain_toString huserinfo⟩
    exact ⟨rfl, huserinfo, rfl, printedAgain_getPort u, printedAgain_getPath u, rfl, rfl⟩

theorem uri_port {parts : UriParts} (hempty : parts.hierPart.port ≠ some [])
    (hport : ∀ digits ∈ parts.hierPart.port, UriParts.numeral digits ≤ 65535) :
    0 ≤ parts.uri.port ∧ parts.uri.port ≤ 65535 := by
  obtain ⟨scheme, hierPart, query, fragment, halpha, hchars, hquery, hfragment⟩ := parts
  cases hierPart with
  | path whole hwhole hsingle => exact ⟨Int.le_refl 0, show (0 : Int) ≤ 65535 by decide⟩
  | authority a path hpath hslash =>
      show 0 ≤ (a.port.map atoi).getD 0 ∧ (a.port.map atoi).getD 0 ≤ 65535
      cases hp : a.port with
      | none => exact ⟨Int.le_refl 0, show (0 : Int) ≤ 65535 by decide⟩
      | some digits =>
          have hsmall := hport digits hp
          have hne : digits ≠ [] := by
            rintro rfl
            exact hempty hp
          show 0 ≤ atoi digits ∧ atoi digits ≤ 65535
          rw [atoi_numeral (a.port_digits digits hp) hne (by omega)]
          omega

theorem uri_userinfo (parts : UriParts) :
    savedUserinfo parts.uri.userinfo = parts.uri.userinfo ↔
      ¬∃ text ∈ parts.hierPart.userinfo, CutTwice text := by
  obtain ⟨scheme, hierPart, query, fragment, halpha, hchars, hquery, hfragment⟩ := parts
  cases hierPart with
  | path whole hwhole hsingle => exact iff_of_true rfl (by rintro ⟨text, htext, -⟩; cases htext)
  | authority a path hpath hslash =>
      show savedUserinfo ((a.userinfo.map savedUserinfo).getD []) =
        (a.userinfo.map savedUserinfo).getD [] ↔ ¬∃ text ∈ a.userinfo, CutTwice text
      cases a.userinfo with
      | none => exact iff_of_true rfl (by rintro ⟨text, htext, -⟩; cases htext)
      | some text =>
          refine (savedUserinfo_twice text).trans (not_congr ?_)
          simp

/-- When printing gives a normal form, for every accepted text with a scheme. -/
theorem toString_normal_iff {s : List UInt8} {u : Uri} (hscheme : HasScheme s)
    (h : create s = some (some u)) :
    (∃ parts : UriParts, parts.text = s) ∧ ∀ parts : UriParts, parts.text = s →
      (∀ digits ∈ parts.hierPart.port, UriParts.numeral digits ≤ 65535) →
        (u.Normal ↔ ¬∃ text ∈ parts.hierPart.userinfo, CutTwice text) := by
  refine ⟨exists_parts (accepts_of_create h) hscheme, ?_⟩
  rintro parts rfl hport
  obtain ⟨rfl, hempty⟩ := uri_of_create h
  have hcreate := create_toString (accepts_of_create h) (uri_port hempty hport)
  exact (normal_iff hcreate).trans (uri_userinfo parts)

theorem toString_normal_iff_site :
    (∃ parts : UriParts, parts.text = chars "http://u:x1@h:80?#f") ∧
      ∀ parts : UriParts, parts.text = chars "http://u:x1@h:80?#f" →
        (∀ digits ∈ parts.hierPart.port, UriParts.numeral digits ≤ 65535) →
          (Uri.Normal ⟨chars "http", chars "u:x1", chars "h", [], [], chars "f", 80⟩ ↔
            ¬∃ text ∈ parts.hierPart.userinfo, CutTwice text) :=
  toString_normal_iff ⟨chars "http", chars "//u:x1@h:80?#f", by decide +kernel, ⟨104, rfl, rfl⟩,
    by decide +kernel⟩ (by decide +kernel)

/-! The parts of `http://a:1:2@h/` have no delimiter but their own. -/

theorem nested_host : ∀ c ∈ chars "h", c ∉ chars ":/?#[]@" := by
  decide

theorem nested_userinfo :
    ∀ text ∈ some (chars "a:1:2"), ∀ c ∈ text, c ≠ 2 ∧ c ∉ chars "/?#[]@" := by
  decide

theorem nested_port : ∀ digits ∈ (none : Option (List UInt8)), ∀ c ∈ digits, 48 ≤ c ∧ c ≤ 57 := by
  decide

theorem nested_path : ∀ c ∈ chars "/", c ∉ chars "?#" := by
  decide

theorem nested_slash : chars "/" = [] ∨ (chars "/").head? = some 47 := by
  exact Or.inr rfl

/-- `http://a:1:2@h/` -/
def nestedParts : UriParts where
  scheme := chars "http"
  hierPart := .authority
    ⟨some (chars "a:1:2"), .name (chars "h") nested_host, none, nested_userinfo, nested_port⟩
    (chars "/") nested_path nested_slash
  query := none
  fragment := none
  scheme_alpha := pinParts.scheme_alpha
  scheme_chars := pinParts.scheme_chars
  query_plain := pinParts.query_plain
  fragment_plain := pinParts.fragment_plain

/-- `http://1:2@h/` is printed, of which the userinfo is read as `2`. -/
theorem toString_not_normal : ¬∀ (parts : UriParts) (u : Uri),
    (∀ digits ∈ parts.hierPart.port, UriParts.numeral digits ≤ 65535) →
    create parts.text = some (some u) → u.Normal := by
  intro h
  have hcreate : create nestedParts.text = some (some nestedParts.uri) := by decide +kernel
  obtain ⟨v, hv, hsame, -⟩ := h nestedParts nestedParts.uri (by decide +kernel) hcreate
  have hagain : create nestedParts.uri.toString = some (some nestedParts.uri.printedAgain) := by
    decide +kernel
  rw [hagain] at hv
  obtain rfl := Option.some.inj (Option.some.inj hv)
  exact absurd hsame.userinfo (by decide +kernel)

end Lyslg.Uri
