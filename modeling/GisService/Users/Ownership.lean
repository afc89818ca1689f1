import GisService.Users.Storage

/-! Who owns a token. The storage looks tokens up by substring. As long as
every stored token was issued for the user that holds it, a token that passes
verification is found under its owner and under nobody else. -/
namespace Users

open ByteString Cxx

variable {hmac : Bytes → Bytes}

/-- The record without its tokens, which no operation changes. -/
def UserData.profile (user : UserData) : UserData := { user with tokens := [] }

/-- A login fails only if nobody has the credentials. -/
theorem authenticateUser_eq_none {credentials : Credentials} {now now' : TimePoint} {users : Storage}
    (h : authenticateUser hmac credentials now now' users = none) :
    ∀ user ∈ users, user.credentials ≠ credentials := by
  induction users with
  | nil => simp
  | cons user users ih =>
      rw [authenticateUser] at h
      split at h
      · simp at h
      · next hOther =>
          rw [Option.map_eq_none_iff] at h
          intro other hMem
          rcases List.mem_cons.mp hMem with rfl | hMem
          · rintro rfl
            exact hOther ⟨rfl, rfl⟩
          · exact ih h other hMem

/-- A successful login appends the new token to one user with the given
credentials and leaves the other users alone. -/
theorem authenticateUser_eq_some {credentials : Credentials} {now now' : TimePoint}
    {users users' : Storage} {token : Bytes}
    (h : authenticateUser hmac credentials now now' users = some (token, users')) :
    token = Jwt.createToken hmac credentials.username now now' ∧
      ∃ before user after, users = before ++ user :: after ∧ user.credentials = credentials ∧
        (∀ other ∈ before, other.credentials ≠ credentials) ∧
        users' = before ++ { user with tokens := user.tokens ++ [token] } :: after := by
  induction users generalizing users' with
  | nil => simp [authenticateUser] at h
  | cons first users ih =>
      rw [authenticateUser] at h
      split at h
      · next hMatch =>
          simp only [Option.some.injEq, Prod.mk.injEq] at h
          obtain ⟨rfl, rfl⟩ := h
          refine ⟨rfl, [], first, users, rfl, ?_, by simp, rfl⟩
          cases hCredentials : first.credentials
          cases credentials
          simp_all
      · next hOther =>
          obtain ⟨⟨token', rest⟩, hRest, hEq⟩ := Option.map_eq_some_iff.mp h
          simp only [Prod.mk.injEq] at hEq
          obtain ⟨rfl, rfl⟩ := hEq
          obtain ⟨hToken, before, user, after, rfl, hCredentials, hBefore, rfl⟩ := ih hRest
          refine ⟨hToken, first :: before, user, after, rfl, hCredentials, ?_, rfl⟩
          intro other hMem
          rcases List.mem_cons.mp hMem with rfl | hMem
          · rintro rfl
            exact hOther ⟨rfl, rfl⟩
          · exact hBefore other hMem

/-- A token that nobody stores is not taken away from anyone. -/
theorem disproveUser_eq_self {token : Bytes} {users : Storage}
    (h : ∀ user ∈ users, token ∉ user.tokens) : disproveUser token users = users := by
  induction users with
  | nil => rfl
  | cons user users ih =>
      rw [disproveUser, if_neg (h user (by simp)), ih fun u hu => h u (List.mem_cons_of_mem _ hu)]

/-- Disproving a stored token erases one occurrence, from the first user that
holds it. -/
theorem disproveUser_eq {token : Bytes} {users : Storage} (h : ∃ user ∈ users, token ∈ user.tokens) :
    ∃ before user after, users = before ++ user :: after ∧ token ∈ user.tokens ∧
      (∀ other ∈ before, token ∉ other.tokens) ∧
      disproveUser token users =
        before ++ { user with tokens := user.tokens.erase token } :: after := by
  induction users with
  | nil => simp at h
  | cons first users ih =>
      by_cases hFirst : token ∈ first.tokens
      · exact ⟨[], first, users, rfl, hFirst, by simp, by rw [disproveUser, if_pos hFirst]; rfl⟩
      · obtain ⟨owner, hOwner, hToken⟩ := h
        rcases List.mem_cons.mp hOwner with rfl | hOwner
        · exact absurd hToken hFirst
        · obtain ⟨before, user, after, rfl, hMem, hBefore, hEq⟩ := ih ⟨owner, hOwner, hToken⟩
          refine ⟨first :: before, user, after, rfl, hMem, ?_, by
            rw [disproveUser, if_neg hFirst, hEq]; rfl⟩
          intro other hOther
          rcases List.mem_cons.mp hOther with rfl | hOther
          · exact hFirst
          · exact hBefore other hOther

section Verification
variable {time : TimePoint} {token : Bytes} {users : Storage}

/-- An unknown token is not looked at. -/
theorem verifyToken_absent (hExist : tokenExist token users = false) :
    verifyToken hmac time token users = .ok (false, users) := by
  rw [verifyToken, if_neg (by simp [hExist])]

/-- A stored token is taken away if it is not valid any more. -/
theorem verifyToken_ok {valid : Bool} (hExist : tokenExist token users = true)
    (hVerify : Jwt.verify hmac time token = .ok valid) :
    verifyToken hmac time token users =
      .ok (valid, if valid then users else disproveUser token users) := by
  rw [verifyToken, if_pos hExist]
  exact congrArg (· >>= _) hVerify

/-- An exception of the verification is not caught. -/
theorem verifyToken_error {e : Exception} (hExist : tokenExist token users = true)
    (hVerify : Jwt.verify hmac time token = .error e) :
    verifyToken hmac time token users = .error e := by
  rw [verifyToken, if_pos hExist]
  exact congrArg (· >>= _) hVerify

end Verification

/-- Between two tables no record changed but for its tokens, and no text other
than the given one is stored less often. -/
def Kept (token : Bytes) : Storage → Storage → Prop :=
  List.Forall₂ fun old new => new.profile = old.profile ∧
    ∀ other ≠ token, old.tokens.count other ≤ new.tokens.count other

theorem Kept.refl (token : Bytes) (users : Storage) : Kept token users users :=
  List.forall₂_same.mpr fun _ _ => ⟨rfl, fun _ _ => Nat.le_refl _⟩

/-- Where one record is replaced, it is enough to look at that record. -/
theorem Kept.replace {token : Bytes} {user new : UserData} (before after : Storage)
    (hProfile : new.profile = user.profile)
    (hTokens : ∀ other ≠ token, user.tokens.count other ≤ new.tokens.count other) :
    Kept token (before ++ user :: after) (before ++ new :: after) :=
  List.rel_append (refl token before) (.cons ⟨hProfile, hTokens⟩ (refl token after))

/-- What is kept includes the records apart from their tokens. -/
theorem Kept.profiles {token : Bytes} {users users' : Storage} (h : Kept token users users') :
    users'.map UserData.profile = users.map UserData.profile := by
  induction h with
  | nil => rfl
  | cons hHead hTail ih => rw [List.map_cons, List.map_cons, hHead.1, ih]

/-- A stored token other than the given one stays with the same user. -/
theorem Kept.mem {token other : Bytes} {users users' : Storage} (h : Kept token users users')
    (hOther : other ≠ token) {user : UserData} (hUser : user ∈ users) (hMem : other ∈ user.tokens) :
    ∃ user' ∈ users', user'.profile = user.profile ∧ other ∈ user'.tokens := by
  induction h with
  | nil => simp at hUser
  | @cons old new olds news hHead hTail ih =>
      rcases List.mem_cons.mp hUser with rfl | hUser
      · refine ⟨new, by simp, hHead.1, ?_⟩
        have hCount := hHead.2 other hOther
        rw [← List.count_pos_iff] at hMem ⊢
        omega
      · obtain ⟨user', hMem', hUser'⟩ := ih hUser
        exact ⟨user', List.mem_cons_of_mem _ hMem', hUser'⟩

/-- A login takes no token away at all. -/
theorem authenticateUser_kept {credentials : Credentials} {now now' : TimePoint}
    {users users' : Storage} {token : Bytes} (other : Bytes)
    (h : authenticateUser hmac credentials now now' users = some (token, users')) :
    Kept other users users' := by
  obtain ⟨-, before, user, after, rfl, -, -, rfl⟩ := authenticateUser_eq_some h
  refine Kept.replace before after rfl fun text _ => ?_
  rw [List.count_append]
  exact Nat.le_add_right _ _

/-- Taking a token away leaves all others. -/
theorem disproveUser_kept (token : Bytes) (users : Storage) :
    Kept token users (disproveUser token users) := by
  by_cases hStored : ∃ user ∈ users, token ∈ user.tokens
  · obtain ⟨before, user, after, rfl, -, -, hEq⟩ := disproveUser_eq hStored
    rw [hEq]
    refine Kept.replace before after rfl fun other hOther => ?_
    dsimp only
    rw [List.count_erase_of_ne hOther]
  · rw [disproveUser_eq_self fun user hUser hToken => hStored ⟨user, hUser, hToken⟩]
    exact .refl token users

/-- Every stored token satisfies a relation with the credentials of its user. -/
def AllTokens (P : Credentials → Bytes → Prop) (users : Storage) : Prop :=
  ∀ user ∈ users, ∀ token ∈ user.tokens, P user.credentials token

/-- It is enough to look at the tokens that a record has gained. -/
theorem AllTokens.replace {P : Credentials → Bytes → Prop} {before after : Storage}
    {user new : UserData} (h : AllTokens P (before ++ user :: after))
    (hCredentials : new.credentials = user.credentials)
    (hTokens : ∀ token ∈ new.tokens, token ∈ user.tokens ∨ P user.credentials token) :
    AllTokens P (before ++ new :: after) := by
  intro owner hOwner token hToken
  rcases List.mem_append.mp hOwner with hOwner | hOwner
  · exact h owner (by simp [hOwner]) token hToken
  rcases List.mem_cons.mp hOwner with rfl | hOwner
  · rw [hCredentials]
    rcases hTokens token hToken with hOld | hNew
    · exact h user (by simp) token hOld
    · exact hNew
  · exact h owner (by simp [hOwner]) token hToken

/-- A login adds the one token. -/
theorem AllTokens.authenticateUser {P : Credentials → Bytes → Prop} {users users' : Storage}
    (h : AllTokens P users) {credentials : Credentials} {now now' : TimePoint} {token : Bytes}
    (hLogin : authenticateUser hmac credentials now now' users = some (token, users'))
    (hNew : P credentials token) : AllTokens P users' := by
  obtain ⟨-, before, user, after, rfl, rfl, -, rfl⟩ := authenticateUser_eq_some hLogin
  refine h.replace rfl fun stored hStored => ?_
  rcases List.mem_append.mp hStored with hOld | hLast
  · exact .inl hOld
  · rw [List.mem_singleton.mp hLast]
    exact .inr hNew

/-- Fewer tokens satisfy what all of them do. -/
theorem AllTokens.disproveUser {P : Credentials → Bytes → Prop} {users : Storage}
    (h : AllTokens P users) (token : Bytes) : AllTokens P (disproveUser token users) := by
  by_cases hStored : ∃ user ∈ users, token ∈ user.tokens
  · obtain ⟨before, user, after, rfl, -, -, hEq⟩ := disproveUser_eq hStored
    rw [hEq]
    exact h.replace rfl fun stored hOld => .inl (List.mem_of_mem_erase hOld)
  · rw [disproveUser_eq_self fun user hUser hToken => hStored ⟨user, hUser, hToken⟩]
    exact h

/-- Usernames are distinct, and every stored token was issued for the user
that holds it. -/
structure Owned (hmac : Bytes → Bytes) (users : Storage) : Prop where
  usernames : (users.map fun user => user.credentials.username).Nodup
  issued : AllTokens (fun credentials token => ∃ grant : Jwt.Grant,
    grant.username = credentials.username ∧ token = grant.token hmac) users

/-- A record holds a token if it is part of one that is stored. -/
theorem holds_iff {token : Bytes} {user : UserData} :
    holds token user = true ↔ ∃ stored ∈ user.tokens, token <:+: stored := by
  simp only [holds, List.any_eq_true, find_isSome_iff]

theorem holds_of_mem {token : Bytes} {user : UserData} (h : token ∈ user.tokens) :
    holds token user = true :=
  holds_iff.mpr ⟨token, h, List.infix_refl token⟩

/-- The search for a token also finds the parts of one. -/
theorem tokenExist_iff {token : Bytes} {users : Storage} :
    tokenExist token users = true ↔ ∃ user ∈ users, ∃ stored ∈ user.tokens, token <:+: stored := by
  simp only [tokenExist, List.any_eq_true, holds_iff]

namespace Owned
variable {users : Storage}

/-- Among issued tokens, the substring search is a search for equal texts. -/
theorem holds_iff_mem (h : Owned hmac users) {user : UserData} (hUser : user ∈ users)
    (grant : Jwt.Grant) :
    holds (grant.token hmac) user = true ↔ grant.token hmac ∈ user.tokens := by
  constructor
  · intro hHolds
    obtain ⟨stored, hStored, hInfix⟩ := holds_iff.mp hHolds
    obtain ⟨other, -, rfl⟩ := h.issued user hUser stored hStored
    rwa [Jwt.Grant.eq_of_token_infix hmac hInfix]
  · exact holds_of_mem

/-- A token has at most one owner, the user it was issued for. -/
theorem owner_unique (h : Owned hmac users) {token : Bytes} {user other : UserData}
    (hUser : user ∈ users) (hOther : other ∈ users) (hToken : token ∈ user.tokens)
    (hHolds : holds token other = true) : other = user := by
  obtain ⟨grant, hGrant, rfl⟩ := h.issued user hUser token hToken
  rw [h.holds_iff_mem hOther] at hHolds
  obtain ⟨grant', hGrant', hEq⟩ := h.issued other hOther _ hHolds
  obtain rfl := Jwt.Grant.token_injective hmac hEq
  exact List.inj_on_of_nodup_map h.usernames hOther hUser (hGrant'.symm.trans hGrant)

/-- `GetUserData` returns the record of the owner. -/
theorem getUserData_eq (h : Owned hmac users) {token : Bytes} {user : UserData}
    (hUser : user ∈ users) (hToken : token ∈ user.tokens) : getUserData token users = user := by
  have hFound : (users.find? (holds token)).isSome = true :=
    List.find?_isSome.mpr ⟨user, hUser, holds_of_mem hToken⟩
  obtain ⟨found, hFind⟩ := Option.isSome_iff_exists.mp hFound
  rw [getUserData, hFind, Option.getD_some]
  exact h.owner_unique hUser (List.mem_of_find?_eq_some hFind) hToken (List.find?_some hFind)

/-- Whatever text the storage finds and the verifier accepts is the complete
token of some user, within its two times. -/
theorem verified (h : Owned hmac users) {time : TimePoint} {token : Bytes}
    (hExist : tokenExist token users = true) (hVerify : Jwt.verify hmac time token = .ok true) :
    ∃ user ∈ users, token ∈ user.tokens ∧ ∃ grant : Jwt.Grant,
      grant.username = user.credentials.username ∧ token = grant.token hmac ∧ grant.Valid time := by
  obtain ⟨user, hUser, stored, hStored, hInfix⟩ := tokenExist_iff.mp hExist
  obtain ⟨grant, hGrant, rfl⟩ := h.issued user hUser stored hStored
  obtain ⟨rfl, hValid⟩ := Jwt.verify_substring hmac hInfix hVerify
  exact ⟨user, hUser, hStored, grant, hGrant, rfl, hValid⟩

end Owned

end Users
