import UProtocols.Authentication
import UProtocols.AuthenticationC
import UProtocols.HtmlEscape
import UProtocols.JoinedWords

/-!
# The role checks of the two authentication servers

`has_role` of `websocket_authentication.rs` compares the required role with each role of the
session; `has_role` of `websocket_authentication.c` searches the text of all roles, in which
commas stand between them. A C string is read as its bytes.
-/

namespace UProtocols
namespace RoleChecks

open JoinedWords HtmlEscape

/-- The characters of the C string with the bytes of a `str`. -/
def cText (text : String) : AuthenticationC.Text :=
  (utf8 text.toList).map fun b => Char.ofNat b.toNat

structure RoleName where
  name : String
  noComma : ',' ∉ name.toList
  noNul : '\x00' ∉ name.toList
  deriving DecidableEq

/-- The names joined by commas, in the 127 bytes that a C session has for them. -/
def storedRoles (roles : List RoleName) : AuthenticationC.Text :=
  (cText (",".intercalate (roles.map RoleName.name))).take 127

/-- The characters of the C string for one character of a `str`. -/
def cChars (c : Char) : List Char := (String.utf8EncodeChar c).map fun b => Char.ofNat b.toNat

theorem cText_eq_flatMap (text : String) : cText text = text.toList.flatMap cChars :=
  List.map_flatMap

theorem cText_intercalate (names : List String) :
    cText (",".intercalate names) = [','].intercalate (names.map cText) := by
  have hcomma : cChars ',' = [','] := by decide
  have hmap : names.map cText = (names.map String.toList).map (List.flatMap cChars) := by
    rw [List.map_map]
    exact List.map_congr_left fun name _ => cText_eq_flatMap name
  rw [cText_eq_flatMap,String.toList_intercalate,hmap,← hcomma]
  exact flatMap_intercalate cChars _

theorem toNat_ofNat_byte (b : UInt8) : (Char.ofNat b.toNat).toNat = b.toNat := by
  have hlt := b.toNat_lt
  have hvalid : b.toNat.isValidChar := Or.inl (by omega)
  rw [Char.ofNat,dif_pos hvalid]
  rfl

theorem comma_not_mem_cText {text : String} (h : ',' ∉ text.toList) : ',' ∉ cText text := by
  intro hmem
  rw [cText_eq_flatMap] at hmem
  obtain ⟨c,hc,hcomma⟩ := List.mem_flatMap.mp hmem
  obtain ⟨b,hb,hchar⟩ := List.mem_map.mp hcomma
  have hcode := congrArg Char.toNat hchar
  rw [toNat_ofNat_byte] at hcode
  have hbcomma : b = byte ',' := UInt8.toNat_inj.mp hcode
  have hlow : b < 0x80 := by
    rw [hbcomma]
    decide
  obtain ⟨hbyte,hascii⟩ := eq_byte_of_mem hb hlow
  have heq : ',' = c := byte_inj (by decide) hascii (hbcomma.symm.trans hbyte)
  exact h (heq ▸ hc)

theorem cText_ne_nil {text : String} (h : text ≠ "") : cText text ≠ [] := by
  intro hnil
  rw [cText_eq_flatMap,List.flatMap_eq_nil_iff] at hnil
  cases hchars : text.toList with
  | nil => exact h (String.toList_eq_nil_iff.mp hchars)
  | cons c cs =>
    have hempty := hnil c (hchars ▸ List.mem_cons_self)
    have hlength := congrArg List.length hempty
    rw [cChars,List.length_map,String.length_utf8EncodeChar,List.length_nil] at hlength
    exact absurd hlength (Nat.ne_of_gt c.utf8Size_pos)

/-- The C search succeeds where the name is part of a role. -/
theorem c_hasRole_iff {roles : List RoleName}
    (hfits : (cText (",".intercalate (roles.map RoleName.name))).length ≤ 127)
    {required : RoleName} (hne : required.name ≠ "") :
    AuthenticationC.hasRole (storedRoles roles) (cText required.name) ↔
      ∃ role ∈ roles, cText required.name <:+: cText role.name := by
  rw [AuthenticationC.hasRole,decide_eq_true_iff,storedRoles,List.take_of_length_le hfits,
    cText_intercalate,
    infix_intercalate_iff (cText_ne_nil hne) (comma_not_mem_cText required.noComma),List.map_map]
  constructor
  · rintro ⟨word,hword,hpart⟩
    obtain ⟨role,hrole,rfl⟩ := List.mem_map.mp hword
    exact ⟨role,hrole,hpart⟩
  · rintro ⟨role,hrole,hpart⟩
    exact ⟨_,List.mem_map_of_mem hrole,hpart⟩

theorem rust_hasRole_iff {session : Authentication.Session} {roles : List RoleName}
    (hroles : session.roles = roles.map RoleName.name) (required : RoleName) :
    Authentication.hasRole session required.name ↔ required ∈ roles := by
  rw [Authentication.hasRole,hroles,List.contains_iff_mem,List.mem_map]
  constructor
  · rintro ⟨role,hrole,hname⟩
    have heq : role = required := by
      cases role
      cases required
      cases hname
      rfl
    exact heq ▸ hrole
  · intro hmem
    exact ⟨required,hmem,rfl⟩

/-- The two checks agree exactly when the required role is one of the roles or part of none. -/
theorem hasRole_agree_iff (session : Authentication.Session) (roles : List RoleName)
    (hroles : session.roles = roles.map RoleName.name)
    (hfits : (cText (",".intercalate (roles.map RoleName.name))).length ≤ 127)
    (required : RoleName) (hne : required.name ≠ "") :
    AuthenticationC.hasRole (storedRoles roles) (cText required.name) =
        Authentication.hasRole session required.name ↔
      required ∈ roles ∨ ∀ role ∈ roles, ¬ cText required.name <:+: cText role.name := by
  rw [Bool.eq_iff_iff,c_hasRole_iff hfits hne,rust_hasRole_iff hroles required]
  by_cases hmem : required ∈ roles
  · have hpart : ∃ role ∈ roles, cText required.name <:+: cText role.name :=
      ⟨required,hmem,List.infix_refl _⟩
    exact iff_of_true (iff_of_true hpart hmem) (Or.inl hmem)
  · simp [hmem]

def superadmin : RoleName := ⟨"superadmin",by decide,by decide⟩

def admin : RoleName := ⟨"admin",by decide,by decide⟩

def user : RoleName := ⟨"user",by decide,by decide⟩

theorem hasRole_agree_user :
    AuthenticationC.hasRole (storedRoles [admin,user]) (cText user.name) =
        Authentication.hasRole ⟨"user123",["admin","user"],true,0⟩ user.name ↔
      user ∈ [admin,user] ∨
        ∀ role ∈ [admin,user], ¬ cText user.name <:+: cText role.name :=
  hasRole_agree_iff ⟨"user123",["admin","user"],true,0⟩ [admin,user] (by decide) (by decide) user
    (by decide)

/-- A super administrator passes the check for administrators. -/
theorem hasRole_superadmin :
    AuthenticationC.hasRole (storedRoles [superadmin]) (cText admin.name) ≠
      Authentication.hasRole ⟨"user123",["superadmin"],true,0⟩ admin.name := by
  decide

end RoleChecks
end UProtocols
