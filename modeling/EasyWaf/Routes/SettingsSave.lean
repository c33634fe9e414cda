import EasyWaf.Core.Script
import EasyWaf.Routes.Settings
import EasyWaf.Text.Decimal

/-!
# What a save of the settings leaves

A save that is refused should leave everything as it was, and what runs should be
what is stored however a save ends.  The first holds of a refusal where every value
stored before it is the one that was stored already; the second where the statements
between a store and what it changes are all carried out.
-/

namespace EasyWaf.Routes.Settings

open EasyWaf.Core Forwarded Net

/-- What runs is what is stored. -/
structure Synced (state : State) : Prop where
  limit : state.inspectionLimit = bodyInspectKb state.settings * 1024
  trusted : state.trusted = trustedList state.settings
  collector : state.collector = syslogTarget state.settings

/-- A save that ended so is refused only with everything as it was, and leaves what
is stored running. -/
def Ends (original : State) (ended : State × Answer) : Prop :=
  ((∃ message, ended.2 = .failed message) → ended.1 = original) ∧ Synced ended.1

section Conditions

variable (surroundings : Surroundings) (form : SettingsForm) (works : Statement → Bool)
variable (state : State)

/-- The first two values pass their checks and are stored. -/
def GeneralStored : Prop :=
  (∃ days, retention form = .ok days) ∧ (∃ message, maintenance form = .ok message) ∧
    works (.set .trafficRetentionDays) ∧ works (.set .maintenanceMessage)

/-- The check of the certificate that is named. -/
def certificate : Except Text Unit :=
  servesTls surroundings (typed form.managementCert)
    (loadNamed state.certs (typed form.managementCert))

def CertificatePasses : Prop :=
  NamesCertificate form → works .loadNamed ∧ certificate surroundings form state = .ok ()

def CertificateRefused : Prop :=
  NamesCertificate form ∧ works .loadNamed ∧
    ∃ message, certificate surroundings form state = .error message

/-- One of the checks after the first two stores refuses. -/
def ChecksRefuse : Prop :=
  (∃ message, tls surroundings form = .error message) ∨
    CertificateRefused surroundings form works state ∨
      CertificatePasses surroundings form works state ∧ ∃ message, contact form = .error message

/-- The first account has this contact and directory. -/
def Configured (email : Text) : Prop :=
  ∃ account, state.accounts.head? = some account ∧ account.email = email ∧
    account.directory = directoryOf (typed form.acmeDirectory)

/-- No contact is given, or it is stored. -/
def AccountStored (email : Text) : Prop :=
  email = [] ∨ works .readAccount ∧ (Configured form state email ∨ works .storeAccount)

/-- The checks after the first two stores pass, and the contact is stored. -/
def ChecksPass : Prop :=
  (∃ chosen, tls surroundings form = .ok chosen) ∧
    CertificatePasses surroundings form works state ∧
      ∃ email, contact form = .ok email ∧ AccountStored form works state email

/-- The proxies are reached: every check before them passes, and what those let
through is stored. -/
def ReachesProxies : Prop :=
  GeneralStored form works ∧ ChecksPass surroundings form works state

def ProxiesStored : Prop :=
  (∃ list, proxies form = .ok list) ∧ works (.set .trustedProxies)

def ReachesInspection : Prop :=
  ReachesProxies surroundings form works state ∧ ProxiesStored form works

def InspectionStored : Prop :=
  (∃ kb, inspection form = .ok kb) ∧ works (.set .requestBodyInspectKb)

def ReachesCollector : Prop :=
  ReachesInspection surroundings form works state ∧ InspectionStored form works

def GeneralSame : Prop :=
  ∀ days message, retention form = .ok days → maintenance form = .ok message →
    state.settings .trafficRetentionDays = some (Text.formatInt days) ∧
      state.settings .maintenanceMessage = some message

def AccountSame : Prop :=
  ∀ email, contact form = .ok email → email = [] ∨ Configured form state email

def ProxiesSame : Prop :=
  ∀ list, proxies form = .ok list →
    state.settings .trustedProxies = some list ∧
      state.trusted = trustedList (state.readings works)

def InspectionSame : Prop :=
  ∀ kb, inspection form = .ok kb →
    state.settings .requestBodyInspectKb = some (Text.formatNat kb) ∧
      state.inspectionLimit = kb * 1024

/-- Where the form is refused, every value stored before is the one that was stored. -/
structure Spares : Prop where
  atChecks : GeneralStored form works → ChecksRefuse surroundings form works state →
    GeneralSame form state
  atProxies : ReachesProxies surroundings form works state →
    (∃ message, proxies form = .error message) → GeneralSame form state ∧ AccountSame form state
  atInspection : ReachesInspection surroundings form works state →
    (∃ message, inspection form = .error message) →
      GeneralSame form state ∧ AccountSame form state ∧ ProxiesSame form works state
  atCollector : ReachesCollector surroundings form works state →
    (∃ message, collector form = .error message) →
      GeneralSame form state ∧ AccountSame form state ∧ ProxiesSame form works state ∧
        InspectionSame form state

/-- The settings with the collector stored as far as the statements are carried out. -/
def withCollector (collector : Collector) (settings : Key → Option Text) : Key → Option Text :=
  let enabled := Function.update settings .syslogEnabled
    (some (if collector.on then "1".toList else "0".toList))
  let named := Function.update enabled .syslogHost (some collector.host)
  if ¬ works (.set .syslogEnabled) then settings
  else if ¬ works (.set .syslogHost) then enabled
  else if ¬ works (.set .syslogPort) then named
  else Function.update named .syslogPort (some (Text.formatNat collector.port))

/-- A statement that stores the collector fails. -/
def CollectorCut : Prop :=
  ¬ (works (.set .syslogEnabled) ∧ works (.set .syslogHost) ∧ works (.set .syslogPort))

/-- Where sending is turned on, what was stored is read back, but for a port that is
the default. -/
def ReadsBack (collector : Collector) : Prop :=
  collector.on → works (.get .syslogEnabled) ∧ works (.get .syslogHost) ∧
    (works (.get .syslogPort) ∨ collector.port = defaultSyslogPort)

/-- What runs is set from what is stored, or was the same before. -/
structure Follows : Prop where
  limitKept : ¬ ReachesCollector surroundings form works state →
    state.inspectionLimit = bodyInspectKb state.settings * 1024
  listRead : ReachesInspection surroundings form works state → ∀ list, proxies form = .ok list →
    works (.get .trustedProxies) ∨ (parseList list).1 = []
  listKept : ¬ ReachesInspection surroundings form works state →
    state.trusted = trustedList state.settings
  targetRead : ReachesCollector surroundings form works state → ∀ stored,
    collector form = .ok stored → ¬ CollectorCut works → ReadsBack works stored
  targetCut : ReachesCollector surroundings form works state → ∀ stored,
    collector form = .ok stored → CollectorCut works →
      state.collector = syslogTarget (withCollector works stored state.settings)
  targetKept : ¬ (ReachesCollector surroundings form works state ∧
      ∃ stored, collector form = .ok stored) →
    state.collector = syslogTarget state.settings

end Conditions

section Rules

variable {works : Statement → Bool} {state original : State} {ended : State × Answer}

theorem run_writing (statement : Statement) (effect : State → State) (next : Save) :
    (writing statement effect next).run works state =
      if works statement then next.run works (effect state) else (state, .error) := by
  rw [writing, Procedure.run]
  split <;> rfl

theorem run_set (key : Key) (value : Text) (next : Save) :
    (set key value next).run works state =
      if works (.set key) then next.run works (state.put key value) else (state, .error) :=
  run_writing _ _ _

theorem run_checked_ok {α : Type} {check : Except Text α} {value : α} (hcheck : check = .ok value)
    (next : α → Save) : (checked check next).run works state = (next value).run works state := by
  rw [hcheck, checked]

theorem run_checked_error {α : Type} {check : Except Text α} {message : Text}
    (hcheck : check = .error message) (next : α → Save) :
    (checked check next).run works state = (state, .failed message) := by
  rw [hcheck]
  rfl

theorem put_settings (state : State) (key other : Key) (value : Text) :
    (state.put key value).settings other =
      if other = key then some value else state.settings other :=
  Function.update_apply _ _ _ _

/-- The keys of the settings that are loaded to run. -/
def Key.Runs (key : Key) : Prop :=
  key = .trustedProxies ∨ key = .requestBodyInspectKb ∨ key = .syslogEnabled ∨
    key = .syslogHost ∨ key = .syslogPort

instance decidableRuns (key : Key) : Decidable key.Runs := inferInstanceAs (Decidable (_ ∨ _))

section Congruence

variable {left right : Key → Option Text}

theorem bodyInspectKb_congr
    (hkb : left .requestBodyInspectKb = right .requestBodyInspectKb) :
    bodyInspectKb left = bodyInspectKb right := by
  rw [bodyInspectKb, bodyInspectKb, hkb]

theorem trustedList_congr (hlist : left .trustedProxies = right .trustedProxies) :
    trustedList left = trustedList right := by
  rw [trustedList, trustedList, hlist]

theorem syslogTarget_congr (henabled : left .syslogEnabled = right .syslogEnabled)
    (hhost : left .syslogHost = right .syslogHost) (hport : left .syslogPort = right .syslogPort) :
    syslogTarget left = syslogTarget right := by
  rw [syslogTarget, syslogTarget, syslogEnabled, syslogEnabled, syslogPort, syslogPort, henabled,
    hhost, hport]

end Congruence

theorem synced_iff :
    Synced state ↔ state.inspectionLimit = bodyInspectKb state.settings * 1024 ∧
      state.trusted = trustedList state.settings ∧
        state.collector = syslogTarget state.settings :=
  ⟨fun ⟨hlimit, htrusted, hcollector⟩ => ⟨hlimit, htrusted, hcollector⟩,
    fun ⟨hlimit, htrusted, hcollector⟩ => ⟨hlimit, htrusted, hcollector⟩⟩

theorem synced_congr {other : State} (hlimit : state.inspectionLimit = other.inspectionLimit)
    (htrusted : state.trusted = other.trusted) (hcollector : state.collector = other.collector)
    (hsettings : ∀ key, key.Runs → state.settings key = other.settings key) :
    Synced state ↔ Synced other := by
  rw [synced_iff, synced_iff, hlimit, htrusted, hcollector,
    bodyInspectKb_congr (hsettings _ (by decide)), trustedList_congr (hsettings _ (by decide)),
    syslogTarget_congr (hsettings _ (by decide)) (hsettings _ (by decide))
      (hsettings _ (by decide))]

/-- A setting that is not loaded to run does not matter. -/
theorem synced_put {key : Key} (hkey : ¬ key.Runs) (value : Text) :
    Synced (state.put key value) ↔ Synced state := by
  have hsettings : ∀ other, Key.Runs other →
      (state.put key value).settings other = state.settings other := by
    intro other hother
    rw [put_settings, if_neg]
    rintro rfl
    exact hkey hother
  exact synced_congr rfl rfl rfl hsettings

/-- A value is put without a change exactly where it is there. -/
theorem put_eq_iff {key : Key} {value : Text}
    (hsame : state.settings key = original.settings key) :
    state.put key value = original ↔ state = original ∧ original.settings key = some value := by
  constructor
  · intro hput
    have hvalue : original.settings key = some value := by
      rw [← hput, put_settings, if_pos rfl]
    refine ⟨?_, hvalue⟩
    rw [← hput, State.put, Function.update_eq_self_iff.mpr (hsame.trans hvalue).symm]
  · rintro ⟨rfl, hvalue⟩
    rw [State.put, Function.update_eq_self_iff.mpr hvalue.symm]

/-- A save stops: refused with everything as it was, or on a statement that failed,
with what matters as it was. -/
structure Stops (state : State) (ended : State × Answer) (refused : Prop) : Prop where
  synced : Synced ended.1 ↔ Synced state
  answer : (∃ message, ended.2 = .failed message) ↔ refused
  same : refused → ended.1 = state

theorem Stops.ends {refused : Prop} (hstops : Stops state ended refused) :
    Ends original ended ↔ (refused → state = original) ∧ Synced state := by
  rw [Ends, hstops.synced, hstops.answer]
  apply and_congr_left'
  apply forall_congr'
  intro hrefused
  rw [hstops.same hrefused]

theorem stops_refused {refused : Prop} {message : Text} (hrefused : refused) :
    Stops state (state, .failed message) refused where
  synced := Iff.rfl
  answer := ⟨fun _ => hrefused, fun _ => ⟨message, rfl⟩⟩
  same := fun _ => rfl

theorem stops_error {refused : Prop} {after : State} (hrefused : ¬ refused)
    (hsynced : Synced after ↔ Synced state) : Stops state (after, .error) refused where
  synced := hsynced
  answer := ⟨fun ⟨_, hanswer⟩ => Answer.noConfusion hanswer, fun h => absurd h hrefused⟩
  same := fun h => absurd h hrefused

/-- A value that is checked and then stored is refused, or its statement fails. -/
theorem stops_stored {α : Type} {check : Except Text α} {key : Key} {value : α → Text}
    {next : α → Save} (hstored : ¬ ((∃ chosen, check = .ok chosen) ∧ works (.set key))) :
    Stops state
      ((checked check fun chosen => set key (value chosen) (next chosen)).run works state)
      (∃ message, check = .error message) := by
  cases hcheck : check with
  | error message =>
      rw [run_checked_error rfl]
      exact stops_refused ⟨message, rfl⟩
  | ok chosen =>
      rw [run_checked_ok rfl, run_set, if_neg fun hset => hstored ⟨⟨chosen, hcheck⟩, hset⟩]
      exact stops_error (ok_not_error chosen) Iff.rfl

end Rules

section Stages

variable {surroundings : Surroundings} {form : SettingsForm} {works : Statement → Bool}
variable {state original : State}

theorem stops_general {rest : ℤ → Save} (hstored : ¬ GeneralStored form works) :
    Stops state
      ((checked (retention form) fun days =>
        checked (maintenance form) fun message =>
        set .trafficRetentionDays (Text.formatInt days) <|
        set .maintenanceMessage message <| rest days).run works state)
      ((∃ message, retention form = .error message) ∨
        ∃ message, maintenance form = .error message) := by
  cases hdays : retention form with
  | error message =>
      rw [run_checked_error rfl]
      exact stops_refused (Or.inl ⟨message, rfl⟩)
  | ok days =>
      rw [run_checked_ok rfl]
      cases hmessage : maintenance form with
      | error message =>
          rw [run_checked_error rfl]
          exact stops_refused (Or.inr ⟨message, rfl⟩)
      | ok message =>
          rw [run_checked_ok rfl, run_set]
          have hpasses : ¬ ((∃ error : Text, Except.ok days = .error error) ∨
              ∃ error : Text, Except.ok message = .error error) :=
            not_or.mpr ⟨ok_not_error days, ok_not_error message⟩
          by_cases hfirst : works (.set .trafficRetentionDays)
          · have hsecond : ¬ works (.set .maintenanceMessage) := fun hsecond =>
              hstored ⟨⟨days, hdays⟩, ⟨message, hmessage⟩, hfirst, hsecond⟩
            rw [if_pos hfirst, run_set, if_neg hsecond]
            exact stops_error hpasses (synced_put (by decide) _)
          · rw [if_neg hfirst]
            exact stops_error hpasses Iff.rfl

theorem run_general {rest : ℤ → Save} {days : ℤ} {message : Text}
    (hdays : retention form = .ok days) (hmessage : maintenance form = .ok message)
    (hstored : GeneralStored form works) :
    (checked (retention form) fun days =>
        checked (maintenance form) fun message =>
        set .trafficRetentionDays (Text.formatInt days) <|
        set .maintenanceMessage message <| rest days).run works state =
      (rest days).run works ((state.put .trafficRetentionDays (Text.formatInt days)).put
        .maintenanceMessage message) := by
  obtain ⟨-, -, hfirst, hsecond⟩ := hstored
  rw [run_checked_ok hdays, run_checked_ok hmessage, run_set, if_pos hfirst, run_set,
    if_pos hsecond]

theorem run_managementCert {next : Text → Save}
    (hpasses : CertificatePasses surroundings form works state) :
    (managementCert surroundings form next).run works state =
      (next (typed form.managementCert)).run works state := by
  rw [managementCert]
  split
  · next hnames =>
      obtain ⟨hworks, hcheck⟩ := hpasses hnames
      rw [Procedure.run, if_pos hworks]
      exact run_checked_ok hcheck _
  · rfl

theorem stops_managementCert {next : Text → Save}
    (hpasses : ¬ CertificatePasses surroundings form works state) :
    Stops state ((managementCert surroundings form next).run works state)
      (CertificateRefused surroundings form works state) := by
  have hnames : NamesCertificate form := by
    by_contra hnames
    exact hpasses fun h => absurd h hnames
  rw [managementCert, if_pos hnames, Procedure.run]
  by_cases hworks : works .loadNamed
  · rw [if_pos hworks]
    cases hcheck : certificate surroundings form state with
    | error message =>
        rw [certificate] at hcheck
        rw [run_checked_error hcheck]
        exact stops_refused ⟨hnames, hworks, message, hcheck⟩
    | ok _ => exact (hpasses fun _ => ⟨hworks, hcheck⟩).elim
  · rw [if_neg hworks]
    exact stops_error (fun hrefused => hworks hrefused.2.1) Iff.rfl

/-- The accounts are as they were exactly where no contact is given, or it is the one
of the first account. -/
theorem run_acmeConfig (next : Save) {email : Text} (hemail : contact form = .ok email)
    (hstored : AccountStored form works state email) :
    ∃ accounts, (acmeConfig form next).run works state =
        next.run works { state with accounts := accounts } ∧
      (accounts = state.accounts ↔ email = [] ∨ Configured form state email) := by
  rw [acmeConfig, run_checked_ok hemail]
  by_cases hnil : email = []
  · rw [if_pos hnil]
    exact ⟨state.accounts, rfl, iff_of_true rfl (Or.inl hnil)⟩
  · obtain ⟨hread, hwrites⟩ := hstored.resolve_left hnil
    rw [if_neg hnil, setConfig, Procedure.run, if_pos hread]
    cases haccounts : state.accounts with
    | nil =>
        have hnot : ¬ Configured form state email := by
          rintro ⟨account, hhead, -⟩
          rw [haccounts] at hhead
          contradiction
        refine ⟨_, (run_writing _ _ _).trans (if_pos (hwrites.resolve_left hnot)), ?_⟩
        exact iff_of_false (List.cons_ne_nil _ _) (not_or.mpr ⟨hnil, hnot⟩)
    | cons account rest =>
        have hconfigured : Configured form state email ↔
            account.email = email ∧
              account.directory = directoryOf (typed form.acmeDirectory) := by
          simp only [Configured, haccounts, List.head?_cons, Option.some.injEq,
            exists_eq_left']
        by_cases hsame : account.email = email ∧
            account.directory = directoryOf (typed form.acmeDirectory)
        · refine ⟨state.accounts, ?_, ?_⟩
          · simp only [if_pos hsame]
          · exact iff_of_true haccounts (Or.inr (hconfigured.mpr hsame))
        · have hwrite := hwrites.resolve_left (mt hconfigured.mp hsame)
          simp only [if_neg hsame]
          refine ⟨_, (run_writing _ _ _).trans (if_pos hwrite), iff_of_false ?_ ?_⟩
          · intro heq
            obtain ⟨rfl, -⟩ := List.cons.inj heq
            exact hsame ⟨rfl, rfl⟩
          · exact not_or.mpr ⟨hnil, mt hconfigured.mp hsame⟩

theorem stops_acmeConfig (next : Save)
    (hstored : ¬ ∃ email, contact form = .ok email ∧ AccountStored form works state email) :
    Stops state ((acmeConfig form next).run works state)
      (∃ message, contact form = .error message) := by
  rw [acmeConfig]
  cases hemail : contact form with
  | error message =>
      rw [run_checked_error rfl]
      exact stops_refused ⟨message, rfl⟩
  | ok email =>
      have hpasses : ¬ ∃ error : Text, Except.ok email = .error error := ok_not_error email
      have hnot : ¬ AccountStored form works state email := fun h => hstored ⟨email, hemail, h⟩
      obtain ⟨hnil, hfails⟩ := not_or.mp hnot
      rw [run_checked_ok rfl, if_neg hnil, setConfig, Procedure.run]
      by_cases hread : works .readAccount
      · obtain ⟨hconfigured, hwrite⟩ := not_or.mp fun h => hfails ⟨hread, h⟩
        rw [if_pos hread]
        split
        · next account rest haccounts =>
            rw [if_neg, run_writing, if_neg hwrite]
            · exact stops_error hpasses Iff.rfl
            · rintro ⟨hsame, hdirectory⟩
              exact hconfigured ⟨account, by rw [haccounts, List.head?_cons], hsame, hdirectory⟩
        · rw [run_writing, if_neg hwrite]
          exact stops_error hpasses Iff.rfl
      · rw [if_neg hread]
        exact stops_error hpasses Iff.rfl

theorem Stops.congr {ended : State × Answer} {refused other : Prop}
    (hstops : Stops state ended refused) (hiff : refused ↔ other) : Stops state ended other :=
  propext hiff ▸ hstops

theorem stops_checks (next : Text → TlsProfile → List Suite → Save)
    (hnot : ¬ ChecksPass surroundings form works state) :
    Stops state
      ((checked (tls surroundings form) fun (profile, suites) =>
        managementCert surroundings form fun cert =>
        acmeConfig form (next cert profile suites)).run works state)
      (ChecksRefuse surroundings form works state) := by
  cases htls : tls surroundings form with
  | error message =>
      rw [run_checked_error rfl]
      exact stops_refused (Or.inl ⟨message, htls⟩)
  | ok chosen =>
      rw [run_checked_ok rfl]
      have htlsPasses : ¬ ∃ message, tls surroundings form = .error message := by
        rw [htls]
        exact ok_not_error chosen
      by_cases hpasses : CertificatePasses surroundings form works state
      · dsimp only
        rw [run_managementCert hpasses]
        have hnotRefused : ¬ CertificateRefused surroundings form works state := by
          rintro ⟨hnames, -, message, hcheck⟩
          rw [(hpasses hnames).2] at hcheck
          contradiction
        have hstops := stops_acmeConfig (next (typed form.managementCert) chosen.1 chosen.2)
          fun haccount => hnot ⟨⟨chosen, htls⟩, hpasses, haccount⟩
        apply hstops.congr
        rw [ChecksRefuse, or_iff_right htlsPasses, or_iff_right hnotRefused, and_iff_right hpasses]
      · apply (stops_managementCert hpasses).congr
        rw [ChecksRefuse, or_iff_right htlsPasses, or_iff_left fun h => hpasses h.1]

theorem run_checks (next : Text → TlsProfile → List Suite → Save)
    (hpass : ChecksPass surroundings form works state) :
    ∃ profile suites accounts,
      (checked (tls surroundings form) fun (profile, suites) =>
        managementCert surroundings form fun cert =>
        acmeConfig form (next cert profile suites)).run works state =
          (next (typed form.managementCert) profile suites).run works
            { state with accounts := accounts } ∧
      (accounts = state.accounts ↔ AccountSame form state) := by
  obtain ⟨⟨⟨profile, suites⟩, htls⟩, hpasses, email, hemail, hstored⟩ := hpass
  obtain ⟨accounts, hrun, hsame⟩ :=
    run_acmeConfig (next (typed form.managementCert) profile suites) hemail hstored
  refine ⟨profile, suites, accounts, ?_, hsame.trans ?_⟩
  · rw [run_checked_ok htls]
    exact (run_managementCert hpasses).trans hrun
  · constructor
    · intro h other hother
      rwa [← Except.ok.inj (hemail.symm.trans hother)]
    · exact fun h => h email hemail

/-- The proxies are stored and read back. -/
def State.trusting (works : Statement → Bool) (list : Text) (state : State) : State :=
  { state.put .trustedProxies list with
    trusted := trustedList ((state.put .trustedProxies list).readings works) }

theorem run_saveProxies {next : Save} {list : Text} (hlist : proxies form = .ok list)
    (hset : works (.set .trustedProxies)) :
    (saveProxies form next).run works state = next.run works (state.trusting works list) := by
  rw [saveProxies, run_checked_ok hlist, run_set, if_pos hset]
  rfl

theorem trusting_eq_iff {list : Text}
    (hsettings : state.settings .trustedProxies = original.settings .trustedProxies)
    (htrusted : state.trusted = original.trusted) :
    state.trusting works list = original ↔ state = original ∧
      original.settings .trustedProxies = some list ∧
        original.trusted = trustedList (original.readings works) := by
  have hreads : original.settings .trustedProxies = some list →
      trustedList ((state.put .trustedProxies list).readings works) =
        trustedList (original.readings works) := by
    intro hlist
    rw [trustedList, trustedList, State.readings, State.readings, put_settings, if_pos rfl, hlist]
  constructor
  · intro htrusting
    have hput : state.put .trustedProxies list = original := by
      rw [← htrusting] at htrusted ⊢
      exact congrArg (fun trusted => { state.put .trustedProxies list with trusted := trusted })
        htrusted
    obtain ⟨hstate, hlist⟩ := (put_eq_iff hsettings).mp hput
    refine ⟨hstate, hlist, ?_⟩
    rw [← hreads hlist, ← htrusting]
    rfl
  · rintro ⟨rfl, hlist, hreloaded⟩
    rw [State.trusting, hreads hlist, ← hreloaded, (put_eq_iff rfl).mpr ⟨rfl, hlist⟩]

/-- The limit is stored and used. -/
def State.limiting (kb : ℕ) (state : State) : State :=
  { state.put .requestBodyInspectKb (Text.formatNat kb) with inspectionLimit := max (kb * 1024) 1 }

theorem run_saveInspection {next : Save} {kb : ℕ} (hkb : inspection form = .ok kb)
    (hset : works (.set .requestBodyInspectKb)) :
    (saveInspection form next).run works state = next.run works (state.limiting kb) := by
  rw [saveInspection, run_checked_ok hkb, run_set, if_pos hset]
  rfl

theorem inspection_spec {kb : ℕ} (hkb : inspection form = .ok kb) :
    1 ≤ kb ∧ kb ≤ maxBodyInspectKb := by
  rw [inspection] at hkb
  split at hkb
  · obtain rfl := Except.ok.inj hkb
    decide
  · split at hkb
    · next other hparse =>
        obtain rfl := Except.ok.inj hkb
        exact of_decide_eq_true (Option.filter_eq_some_iff.mp hparse).2
    · contradiction

theorem max_limit {kb : ℕ} (hkb : 1 ≤ kb) : max (kb * 1024) 1 = kb * 1024 := by omega

theorem limiting_eq_iff {kb : ℕ} (hkb : 1 ≤ kb)
    (hsettings : state.settings .requestBodyInspectKb = original.settings .requestBodyInspectKb)
    (hlimit : state.inspectionLimit = original.inspectionLimit) :
    state.limiting kb = original ↔ state = original ∧
      original.settings .requestBodyInspectKb = some (Text.formatNat kb) ∧
        original.inspectionLimit = kb * 1024 := by
  constructor
  · intro hlimiting
    have hput : state.put .requestBodyInspectKb (Text.formatNat kb) = original := by
      rw [← hlimiting] at hlimit ⊢
      exact congrArg (fun limit =>
        { state.put .requestBodyInspectKb (Text.formatNat kb) with inspectionLimit := limit }) hlimit
    obtain ⟨hstate, hvalue⟩ := (put_eq_iff hsettings).mp hput
    refine ⟨hstate, hvalue, ?_⟩
    rw [← hlimiting, State.limiting, max_limit hkb]
  · rintro ⟨rfl, hvalue, hsame⟩
    rw [State.limiting, max_limit hkb, ← hsame, (put_eq_iff rfl).mpr ⟨rfl, hvalue⟩]

end Stages

section Collectors

variable {form : SettingsForm} {works : Statement → Bool} {state original : State}
variable {stored : Collector}

theorem collector_spec (hstored : collector form = .ok stored) :
    (stored.on → stored.host ≠ []) ∧ stored.host.trim = stored.host ∧ stored.port < 65536 := by
  rw [collector] at hstored
  split at hstored
  · contradiction
  · next hnamed =>
      have hhost : ∀ on : Bool, on = form.syslogEnabled.isSome → on →
          typed form.syslogHost ≠ [] := fun on hon hsends hnil => hnamed ⟨hon ▸ hsends, hnil⟩
      split at hstored
      · contradiction
      · split at hstored
        · contradiction
        · split at hstored
          · obtain rfl := Except.ok.inj hstored
            exact ⟨hhost _ rfl, Text.trim_trim _, (by decide : defaultSyslogPort < 65536)⟩
          · split at hstored
            · next port hport =>
                obtain rfl := Except.ok.inj hstored
                have hbound := (Option.filter_eq_some_iff.mp (Option.filter_eq_some_iff.mp hport).1).2
                exact ⟨hhost _ rfl, Text.trim_trim _, of_decide_eq_true hbound⟩
            · contradiction

theorem socketAddress_injective (host : Text) : Function.Injective (socketAddress host) := by
  intro left right heq
  rw [socketAddress, socketAddress] at heq
  split at heq
  · exact Text.formatNat_injective (List.append_cancel_left heq)
  · exact Text.formatNat_injective (List.append_cancel_left heq)

/-- The settings hold a collector. -/
structure Holds (settings : Key → Option Text) (collector : Collector) : Prop where
  enabled : settings .syslogEnabled = some (if collector.on then "1".toList else "0".toList)
  host : settings .syslogHost = some collector.host
  port : settings .syslogPort = some (Text.formatNat collector.port)

theorem syslogEnabled_stored {settings : Key → Option Text} (hholds : Holds settings stored) :
    syslogEnabled settings = stored.on := by
  rw [syslogEnabled, hholds.enabled]
  cases stored.on <;> decide

theorem syslogPort_stored {settings : Key → Option Text} (hholds : Holds settings stored)
    (hport : stored.port < 65536) : syslogPort settings = stored.port := by
  rw [syslogPort, hholds.port, Option.bind_some, Text.trim_formatNat, Text.parseUnsigned_formatNat hport,
    Option.getD_some]

/-- What a collector that is stored has flow lines sent to. -/
theorem syslogTarget_stored {settings : Key → Option Text} (hholds : Holds settings stored)
    (hstored : collector form = .ok stored) :
    syslogTarget settings =
      if stored.on then some (socketAddress stored.host stored.port) else none := by
  obtain ⟨hnamed, htrim, hport⟩ := collector_spec hstored
  rw [syslogTarget, syslogEnabled_stored hholds, syslogPort_stored hholds hport, hholds.host, typed,
    Option.getD_some, htrim]
  cases hon : stored.on with
  | false => rfl
  | true => simp only [Bool.not_true, Bool.false_eq_true, if_false, if_neg (hnamed hon), if_true]

theorem syslogEnabled_readings (hholds : Holds state.settings stored) :
    syslogEnabled (state.readings works) = (works (.get .syslogEnabled) && stored.on) := by
  cases hread : works (.get .syslogEnabled) with
  | false =>
      rw [syslogEnabled, State.readings, if_neg (by rw [hread]; decide)]
      rfl
  | true =>
      rw [syslogEnabled, State.readings, if_pos hread]
      exact syslogEnabled_stored hholds

theorem host_readings (hholds : Holds state.settings stored)
    (htrim : stored.host.trim = stored.host) :
    typed (state.readings works .syslogHost) =
      if works (.get .syslogHost) then stored.host else [] := by
  rw [State.readings]
  split
  · rw [hholds.host, typed, Option.getD_some, htrim]
  · rfl

theorem syslogPort_readings (hholds : Holds state.settings stored) (hport : stored.port < 65536) :
    syslogPort (state.readings works) =
      if works (.get .syslogPort) then stored.port else defaultSyslogPort := by
  rw [syslogPort, State.readings]
  split
  · exact syslogPort_stored hholds hport
  · rfl

/-- The same read back, where some of the settings cannot be read. -/
theorem syslogTarget_readings (hholds : Holds state.settings stored)
    (hstored : collector form = .ok stored) :
    syslogTarget (state.readings works) = syslogTarget state.settings ↔
      ReadsBack works stored := by
  obtain ⟨hnamed, htrim, hport⟩ := collector_spec hstored
  rw [syslogTarget_stored hholds hstored, ReadsBack, syslogTarget, syslogEnabled_readings hholds,
    host_readings hholds htrim, syslogPort_readings hholds hport]
  cases hon : stored.on with
  | false => simp only [Bool.and_false, Bool.not_false, if_true, Bool.false_eq_true, if_false,
      false_implies]
  | true =>
      simp only [Bool.and_true, if_true, true_implies]
      cases works (.get .syslogEnabled) with
      | false => simp only [Bool.not_false, if_true, reduceCtorEq, Bool.false_eq_true, false_and]
      | true =>
          simp only [Bool.not_true, Bool.false_eq_true, if_false, true_and]
          cases works (.get .syslogHost) with
          | false => simp only [Bool.false_eq_true, if_false, if_true, reduceCtorEq, false_and]
          | true =>
              rw [if_pos rfl, if_neg (hnamed hon), Option.some.injEq,
                (socketAddress_injective _).eq_iff]
              split
              · next hread => simp only [hread, true_or, and_self]
              · next hread => simp only [hread, Bool.false_eq_true, false_or, true_and, eq_comm]

/-- A state with the collector stored so far. -/
def State.storing (works : Statement → Bool) (collector : Collector) (state : State) : State :=
  { state with settings := withCollector works collector state.settings }

theorem run_saveCollector_cut {next : Save} (hstored : collector form = .ok stored)
    (hcut : CollectorCut works) :
    (saveCollector form next).run works state = (state.storing works stored, .error) := by
  rw [saveCollector, run_checked_ok hstored, run_set, State.storing, withCollector]
  by_cases henabled : works (.set .syslogEnabled)
  · rw [if_pos henabled, if_neg (not_not.mpr henabled), run_set]
    by_cases hhost : works (.set .syslogHost)
    · have hport : ¬ works (.set .syslogPort) := fun hport => hcut ⟨henabled, hhost, hport⟩
      rw [if_pos hhost, if_neg (not_not.mpr hhost), run_set, if_neg hport, if_pos hport]
      rfl
    · rw [if_neg hhost, if_pos hhost]
      rfl
  · rw [if_neg henabled, if_pos henabled]

theorem withCollector_of_not_cut (hcut : ¬ CollectorCut works)
    (settings : Key → Option Text) :
    withCollector works stored settings =
      Function.update
        (Function.update
          (Function.update settings .syslogEnabled
            (some (if stored.on then "1".toList else "0".toList)))
          .syslogHost (some stored.host))
        .syslogPort (some (Text.formatNat stored.port)) := by
  obtain ⟨henabled, hhost, hport⟩ := not_not.mp hcut
  rw [withCollector, if_neg (not_not.mpr henabled), if_neg (not_not.mpr hhost),
    if_neg (not_not.mpr hport)]

theorem run_saveCollector_through {next : Save} (hstored : collector form = .ok stored)
    (hcut : ¬ CollectorCut works) :
    (saveCollector form next).run works state =
      next.run works
        { state.storing works stored with
          collector := syslogTarget ((state.storing works stored).readings works) } := by
  obtain ⟨henabled, hhost, hport⟩ := not_not.mp hcut
  rw [saveCollector, run_checked_ok hstored, run_set, if_pos henabled, run_set, if_pos hhost,
    run_set, if_pos hport, State.storing, withCollector_of_not_cut hcut]
  rfl

theorem holds_storing (hcut : ¬ CollectorCut works) :
    Holds (state.storing works stored).settings stored := by
  rw [State.storing, withCollector_of_not_cut hcut]
  exact ⟨rfl, rfl, rfl⟩

/-- The other settings are as they were. -/
theorem settings_storing {key : Key} (henabled : key ≠ .syslogEnabled)
    (hhost : key ≠ .syslogHost) (hport : key ≠ .syslogPort) :
    (state.storing works stored).settings key = state.settings key := by
  rw [State.storing]
  dsimp only
  rw [withCollector]
  split
  · rfl
  · split
    · rw [Function.update_of_ne henabled]
    · split
      · rw [Function.update_of_ne hhost, Function.update_of_ne henabled]
      · rw [Function.update_of_ne hport, Function.update_of_ne hhost,
          Function.update_of_ne henabled]

theorem stops_saveTls (days : ℤ) (cert : Text) (profile : TlsProfile) (suites : List Suite) :
    Stops state ((saveTls days cert profile suites).run works state) False := by
  rw [saveTls, run_set]
  split
  · rw [run_set]
    split
    · rw [run_set]
      split
      · refine ⟨?_, ⟨fun ⟨_, hanswer⟩ => (nomatch hanswer), False.elim⟩, False.elim⟩
        exact ((synced_put (by decide) _).trans (synced_put (by decide) _)).trans
          (synced_put (by decide) _)
      · exact stops_error not_false
          ((synced_put (by decide) _).trans (synced_put (by decide) _))
    · exact stops_error not_false (synced_put (by decide) _)
  · exact stops_error not_false Iff.rfl

theorem ends_saveCollector (hstored : collector form = .ok stored) (days : ℤ) (cert : Text)
    (profile : TlsProfile) (suites : List Suite) :
    Ends original ((saveCollector form (saveTls days cert profile suites)).run works state) ↔
      state.inspectionLimit = bodyInspectKb state.settings * 1024 ∧
        state.trusted = trustedList state.settings ∧
          (CollectorCut works →
            state.collector = syslogTarget (withCollector works stored state.settings)) ∧
            (¬ CollectorCut works → ReadsBack works stored) := by
  have hlist : (state.storing works stored).settings .trustedProxies =
      state.settings .trustedProxies :=
    settings_storing (by decide) (by decide) (by decide)
  have hkb : (state.storing works stored).settings .requestBodyInspectKb =
      state.settings .requestBodyInspectKb :=
    settings_storing (by decide) (by decide) (by decide)
  by_cases hcut : CollectorCut works
  · have hstops : Stops (state.storing works stored) (state.storing works stored, .error) False :=
      stops_error not_false Iff.rfl
    rw [run_saveCollector_cut hstored hcut, hstops.ends, synced_iff, trustedList_congr hlist,
      bodyInspectKb_congr hkb]
    simp only [hcut, true_implies, not_true_eq_false, false_implies, and_true, true_and]
    rfl
  · rw [run_saveCollector_through hstored hcut, (stops_saveTls days cert profile suites).ends,
      synced_iff]
    dsimp only
    rw [trustedList_congr hlist, bodyInspectKb_congr hkb,
      syslogTarget_readings (holds_storing hcut) hstored]
    simp only [hcut, false_implies, not_false_eq_true, true_implies, true_and]
    rfl

end Collectors

section Synchrony

variable {form : SettingsForm} {works : Statement → Bool} {state other : State}

theorem settings_limiting {kb : ℕ} {key : Key} (hkey : key ≠ .requestBodyInspectKb) :
    (state.limiting kb).settings key = state.settings key :=
  (put_settings state _ _ _).trans (if_neg hkey)

theorem settings_trusting {list : Text} {key : Key} (hkey : key ≠ .trustedProxies) :
    (state.trusting works list).settings key = state.settings key :=
  (put_settings state _ _ _).trans (if_neg hkey)

/-- The proxies that are stored are trusted where they are read back, or none are. -/
theorem trusted_trusting {list : Text} :
    (state.trusting works list).trusted = trustedList (state.trusting works list).settings ↔
      works (.get .trustedProxies) ∨ (parseList list).1 = [] := by
  have hstored : (state.trusting works list).settings .trustedProxies = some list :=
    (put_settings state .trustedProxies _ list).trans (if_pos rfl)
  have htrusted : (state.trusting works list).trusted =
      trustedList ((state.put .trustedProxies list).readings works) := rfl
  rw [htrusted, trustedList, trustedList, State.readings, put_settings, if_pos rfl, hstored,
    Option.getD_some]
  split
  · next hworks => exact iff_of_true rfl (Or.inl hworks)
  · next hfails =>
      rw [or_iff_right hfails]
      exact eq_comm

/-- The limit that is stored is the one that is used. -/
theorem limit_limiting {kb : ℕ} (hkb : inspection form = .ok kb) :
    (state.limiting kb).inspectionLimit = bodyInspectKb (state.limiting kb).settings * 1024 := by
  obtain ⟨hlow, hhigh⟩ := inspection_spec hkb
  have hbound : kb < 2 ^ 64 := lt_of_le_of_lt hhigh (by decide)
  have hstored : (state.limiting kb).settings .requestBodyInspectKb =
      some (Text.formatNat kb) :=
    (put_settings state .requestBodyInspectKb _ (Text.formatNat kb)).trans (if_pos rfl)
  rw [bodyInspectKb, hstored, Option.bind_some, Text.trim_formatNat, parseKb,
    Text.parseUnsigned_formatNat hbound, Option.filter_some, if_pos (decide_eq_true ⟨hlow, hhigh⟩),
    Option.getD_some]
  exact max_limit hlow

theorem withCollector_congr {stored : Collector} {left right : Key → Option Text} {key : Key}
    (hsame : left key = right key) :
    withCollector works stored left key = withCollector works stored right key := by
  simp only [withCollector]
  split
  · exact hsame
  · split
    · simp only [Function.update_apply, hsame]
    · split
      · simp only [Function.update_apply, hsame]
      · simp only [Function.update_apply, hsame]

end Synchrony

section Saves

variable {surroundings : Surroundings} {form : SettingsForm} {works : Statement → Bool}
variable {state : State}

theorem not_checksRefuse (hpass : ChecksPass surroundings form works state) :
    ¬ ChecksRefuse surroundings form works state := by
  obtain ⟨⟨chosen, htls⟩, hpasses, email, hemail, -⟩ := hpass
  rintro (⟨message, herror⟩ | ⟨hnames, -, message, herror⟩ | ⟨-, message, herror⟩)
  · rw [htls] at herror
    contradiction
  · rw [(hpasses hnames).2] at herror
    contradiction
  · rw [hemail] at herror
    contradiction

section Leaves

/-- Nothing that runs is reached. -/
theorem follows_iff_synced (hnot : ¬ ReachesInspection surroundings form works state) :
    Follows surroundings form works state ↔ Synced state := by
  have hcollector : ¬ ReachesCollector surroundings form works state := fun h => hnot h.1
  constructor
  · intro hfollows
    exact ⟨hfollows.limitKept hcollector, hfollows.listKept hnot,
      hfollows.targetKept fun h => hcollector h.1⟩
  · intro hsynced
    exact {
      limitKept := fun _ => hsynced.limit
      listRead := fun hreaches => (hnot hreaches).elim
      listKept := fun _ => hsynced.trusted
      targetRead := fun hreaches => (hcollector hreaches).elim
      targetCut := fun hreaches => (hcollector hreaches).elim
      targetKept := fun _ => hsynced.collector }

theorem follows_iff_list {list : Text} (hlist : proxies form = .ok list)
    (hreaches : ReachesInspection surroundings form works state)
    (hnot : ¬ InspectionStored form works) :
    Follows surroundings form works state ↔
      state.inspectionLimit = bodyInspectKb state.settings * 1024 ∧
        (works (.get .trustedProxies) ∨ (parseList list).1 = []) ∧
          state.collector = syslogTarget state.settings := by
  have hcollector : ¬ ReachesCollector surroundings form works state := fun h => hnot h.2
  constructor
  · intro hfollows
    exact ⟨hfollows.limitKept hcollector, hfollows.listRead hreaches list hlist,
      hfollows.targetKept fun h => hcollector h.1⟩
  · rintro ⟨hlimit, hread, htarget⟩
    exact {
      limitKept := fun _ => hlimit
      listRead := fun _ other hother => Except.ok.inj (hlist.symm.trans hother) ▸ hread
      listKept := fun hkept => (hkept hreaches).elim
      targetRead := fun hreaches => (hcollector hreaches).elim
      targetCut := fun hreaches => (hcollector hreaches).elim
      targetKept := fun _ => htarget }

theorem follows_iff_refused {list message : Text} (hlist : proxies form = .ok list)
    (hreaches : ReachesCollector surroundings form works state)
    (hrefused : collector form = .error message) :
    Follows surroundings form works state ↔
      (works (.get .trustedProxies) ∨ (parseList list).1 = []) ∧
        state.collector = syslogTarget state.settings := by
  have hnot : ∀ stored, collector form ≠ .ok stored := fun stored hstored =>
    nomatch hrefused.symm.trans hstored
  constructor
  · intro hfollows
    exact ⟨hfollows.listRead hreaches.1 list hlist,
      hfollows.targetKept fun ⟨_, stored, hstored⟩ => hnot stored hstored⟩
  · rintro ⟨hread, htarget⟩
    exact {
      limitKept := fun hkept => (hkept hreaches).elim
      listRead := fun _ other hother => Except.ok.inj (hlist.symm.trans hother) ▸ hread
      listKept := fun hkept => (hkept hreaches.1).elim
      targetRead := fun _ stored hstored => (hnot stored hstored).elim
      targetCut := fun _ stored hstored => (hnot stored hstored).elim
      targetKept := fun _ => htarget }

theorem follows_iff_stored {list : Text} {stored : Collector} (hlist : proxies form = .ok list)
    (hreaches : ReachesCollector surroundings form works state)
    (hstored : collector form = .ok stored) :
    Follows surroundings form works state ↔
      (works (.get .trustedProxies) ∨ (parseList list).1 = []) ∧
        (CollectorCut works →
          state.collector = syslogTarget (withCollector works stored state.settings)) ∧
          (¬ CollectorCut works → ReadsBack works stored) := by
  constructor
  · intro hfollows
    exact ⟨hfollows.listRead hreaches.1 list hlist, hfollows.targetCut hreaches stored hstored,
      hfollows.targetRead hreaches stored hstored⟩
  · rintro ⟨hread, hcut, hthrough⟩
    exact {
      limitKept := fun hkept => (hkept hreaches).elim
      listRead := fun _ other hother => Except.ok.inj (hlist.symm.trans hother) ▸ hread
      listKept := fun hkept => (hkept hreaches.1).elim
      targetRead := fun _ other hother => Except.ok.inj (hstored.symm.trans hother) ▸ hthrough
      targetCut := fun _ other hother => Except.ok.inj (hstored.symm.trans hother) ▸ hcut
      targetKept := fun hkept => (hkept ⟨hreaches, stored, hstored⟩).elim }

/-- Nothing is stored before the first two values are. -/
theorem spares_of_not_stored (hnot : ¬ GeneralStored form works) :
    Spares surroundings form works state where
  atChecks := fun hstored => (hnot hstored).elim
  atProxies := fun hreaches => (hnot hreaches.1).elim
  atInspection := fun hreaches => (hnot hreaches.1.1).elim
  atCollector := fun hreaches => (hnot hreaches.1.1.1).elim

theorem spares_iff_checks (hstored : GeneralStored form works)
    (hnot : ¬ ChecksPass surroundings form works state) :
    Spares surroundings form works state ↔
      (ChecksRefuse surroundings form works state → GeneralSame form state) := by
  constructor
  · exact fun hspares => hspares.atChecks hstored
  · intro hchecks
    exact {
      atChecks := fun _ => hchecks
      atProxies := fun hreaches => (hnot hreaches.2).elim
      atInspection := fun hreaches => (hnot hreaches.1.2).elim
      atCollector := fun hreaches => (hnot hreaches.1.1.2).elim }

theorem spares_iff_proxies (hreaches : ReachesProxies surroundings form works state)
    (hnot : ¬ ProxiesStored form works) :
    Spares surroundings form works state ↔
      ((∃ message, proxies form = .error message) →
        GeneralSame form state ∧ AccountSame form state) := by
  constructor
  · exact fun hspares => hspares.atProxies hreaches
  · intro hproxies
    exact {
      atChecks := fun _ hrefuse => (not_checksRefuse hreaches.2 hrefuse).elim
      atProxies := fun _ => hproxies
      atInspection := fun hreaches => (hnot hreaches.2).elim
      atCollector := fun hreaches => (hnot hreaches.1.2).elim }

theorem not_refused {α : Type} {check : Except Text α} {p : Prop}
    (hstored : (∃ value, check = .ok value) ∧ p) : ¬ ∃ message, check = .error message := by
  obtain ⟨⟨value, hvalue⟩, -⟩ := hstored
  exact hvalue ▸ ok_not_error value

theorem spares_iff_inspection (hreaches : ReachesInspection surroundings form works state)
    (hnot : ¬ InspectionStored form works) :
    Spares surroundings form works state ↔
      ((∃ message, inspection form = .error message) →
        GeneralSame form state ∧ AccountSame form state ∧ ProxiesSame form works state) := by
  constructor
  · exact fun hspares => hspares.atInspection hreaches
  · intro hinspection
    exact {
      atChecks := fun _ hrefuse => (not_checksRefuse hreaches.1.2 hrefuse).elim
      atProxies := fun _ hrefuse => (not_refused hreaches.2 hrefuse).elim
      atInspection := fun _ => hinspection
      atCollector := fun hreaches => (hnot hreaches.2).elim }

theorem spares_iff_collector (hreaches : ReachesCollector surroundings form works state) :
    Spares surroundings form works state ↔
      ((∃ message, collector form = .error message) →
        GeneralSame form state ∧ AccountSame form state ∧ ProxiesSame form works state ∧
          InspectionSame form state) := by
  constructor
  · exact fun hspares => hspares.atCollector hreaches
  · intro hcollector
    exact {
      atChecks := fun _ hrefuse => (not_checksRefuse hreaches.1.1.2 hrefuse).elim
      atProxies := fun _ hrefuse => (not_refused hreaches.1.2 hrefuse).elim
      atInspection := fun _ hrefuse => (not_refused hreaches.2 hrefuse).elim
      atCollector := fun _ => hcollector }

end Leaves

/-- What runs, and the settings it is loaded from, are those of the other state. -/
structure Alike (other state : State) : Prop where
  settings : ∀ key, key.Runs → other.settings key = state.settings key
  limit : other.inspectionLimit = state.inspectionLimit
  trusted : other.trusted = state.trusted
  collector : other.collector = state.collector

section Tail

variable {other : State} {days : ℤ} {cert : Text} {profile : TlsProfile} {suites : List Suite}

/-- The last stage, entered with the other values stored. -/
theorem ends_collector {middle : State} {list : Text} {kb : ℕ}
    (hreaches : ReachesCollector surroundings form works state)
    (hlist : proxies form = .ok list) (hkb : inspection form = .ok kb)
    (hmiddle : middle = (other.trusting works list).limiting kb) (halike : Alike other state)
    (hsame : middle = state ↔ GeneralSame form state ∧ AccountSame form state ∧
      ProxiesSame form works state ∧ InspectionSame form state) :
    Ends state
        ((saveCollector form (saveTls days cert profile suites)).run works middle) ↔
      Spares surroundings form works state ∧ Follows surroundings form works state := by
  have hkey (key : Key) (hkb : key ≠ .requestBodyInspectKb) (hlist : key ≠ .trustedProxies)
      (hruns : key.Runs) : middle.settings key = state.settings key := by
    rw [hmiddle, settings_limiting hkb, settings_trusting hlist, halike.settings key hruns]
  have hlimit : middle.inspectionLimit = bodyInspectKb middle.settings * 1024 :=
    hmiddle ▸ limit_limiting hkb
  have htrusted : middle.trusted = trustedList middle.settings ↔
      works (.get .trustedProxies) ∨ (parseList list).1 = [] := by
    rw [hmiddle, trustedList_congr (settings_limiting (by decide)), ← trusted_trusting]
    rfl
  have hcollector : middle.collector = state.collector := by
    rw [hmiddle]
    exact halike.collector
  rw [spares_iff_collector hreaches]
  cases hcheck : collector form with
  | error message =>
      have hrefused : ∃ other, (Except.error message : Except Text Collector) = .error other :=
        ⟨message, rfl⟩
      rw [saveCollector, run_checked_error hcheck, (stops_refused hrefused).ends, hsame,
        synced_iff, follows_iff_refused hlist hreaches hcheck, htrusted, hcollector,
        syslogTarget_congr (hkey _ (by decide) (by decide) (by decide))
          (hkey _ (by decide) (by decide) (by decide)) (hkey _ (by decide) (by decide) (by decide)),
        and_iff_right hlimit]
  | ok stored =>
      have htarget : syslogTarget (withCollector works stored middle.settings) =
          syslogTarget (withCollector works stored state.settings) :=
        syslogTarget_congr (withCollector_congr (hkey _ (by decide) (by decide) (by decide)))
          (withCollector_congr (hkey _ (by decide) (by decide) (by decide)))
          (withCollector_congr (hkey _ (by decide) (by decide) (by decide)))
      rw [ends_saveCollector hcheck, and_iff_right hlimit, htrusted, hcollector, htarget,
        follows_iff_stored hlist hreaches hcheck]
      exact (and_iff_right fun hrefused => (ok_not_error stored hrefused).elim).symm

/-- The stage that stores the proxies, entered with the other values stored. -/
theorem ends_proxies (hreaches : ReachesProxies surroundings form works state)
    (halike : Alike other state)
    (hsame : other = state ↔ GeneralSame form state ∧ AccountSame form state) :
    Ends state
        ((saveProxies form <| saveInspection form <| saveCollector form <|
          saveTls days cert profile suites).run works other) ↔
      Spares surroundings form works state ∧ Follows surroundings form works state := by
  have hkb := bodyInspectKb_congr (halike.settings .requestBodyInspectKb (by decide))
  have htarget := syslogTarget_congr (halike.settings .syslogEnabled (by decide))
    (halike.settings .syslogHost (by decide)) (halike.settings .syslogPort (by decide))
  by_cases hproxies : ProxiesStored form works
  · obtain ⟨⟨list, hlist⟩, hset⟩ := hproxies
    have hinspected : ReachesInspection surroundings form works state :=
      ⟨hreaches, ⟨list, hlist⟩, hset⟩
    have hlistSame : other.trusting works list = state ↔ GeneralSame form state ∧
        AccountSame form state ∧ ProxiesSame form works state := by
      rw [trusting_eq_iff (halike.settings _ (by decide)) halike.trusted, hsame, and_assoc,
        ProxiesSame, forall_ok_iff hlist]
    rw [run_saveProxies hlist hset]
    by_cases hinspection : InspectionStored form works
    · obtain ⟨⟨kb, hchosen⟩, hstored⟩ := hinspection
      rw [run_saveInspection hchosen hstored]
      apply ends_collector ⟨hinspected, ⟨kb, hchosen⟩, hstored⟩ hlist hchosen rfl halike
      have hkey : (other.trusting works list).settings .requestBodyInspectKb =
          state.settings .requestBodyInspectKb :=
        (settings_trusting (by decide)).trans (halike.settings _ (by decide))
      rw [limiting_eq_iff (inspection_spec hchosen).1 hkey halike.limit, hlistSame, InspectionSame,
        forall_ok_iff hchosen, and_assoc, and_assoc]
    · rw [saveInspection, (stops_stored hinspection).ends,
        spares_iff_inspection hinspected hinspection, follows_iff_list hlist hinspected hinspection,
        hlistSame, synced_iff, trusted_trusting,
        bodyInspectKb_congr (settings_trusting (by decide)),
        syslogTarget_congr (settings_trusting (by decide)) (settings_trusting (by decide))
          (settings_trusting (by decide)), hkb, htarget, ← halike.limit, ← halike.collector]
      rfl
  · rw [saveProxies, (stops_stored hproxies).ends, spares_iff_proxies hreaches hproxies,
      follows_iff_synced fun h => hproxies h.2, hsame,
      synced_congr halike.limit halike.trusted halike.collector halike.settings]

end Tail

/-- A save that is refused leaves everything as it was, and what runs is what is
stored, exactly where what was stored before the refusal was there already and what
runs is set from what is stored. -/
theorem save_ends (surroundings : Surroundings) (form : SettingsForm) (works : Statement → Bool)
    (state : State) :
    Ends state ((postSettingsUpdate surroundings form).run works state) ↔
      Spares surroundings form works state ∧ Follows surroundings form works state := by
  rw [postSettingsUpdate]
  by_cases hgeneral : GeneralStored form works
  · obtain ⟨⟨days, hdays⟩, ⟨message, hmessage⟩, -⟩ := id hgeneral
    rw [run_general hdays hmessage hgeneral]
    let first := (state.put .trafficRetentionDays (Text.formatInt days)).put .maintenanceMessage
      message
    have hfirst : first = state ↔ GeneralSame form state := by
      rw [put_eq_iff (put_settings _ _ _ _), put_eq_iff rfl, eq_self_iff_true, true_and,
        GeneralSame]
      constructor
      · rintro ⟨hleft, hright⟩ other text hother htext
        rw [← Except.ok.inj (hdays.symm.trans hother), ← Except.ok.inj (hmessage.symm.trans htext)]
        exact ⟨hleft, hright⟩
      · exact fun hall => hall days message hdays hmessage
    have halike : Alike first state := by
      refine ⟨fun key hruns => ?_, rfl, rfl, rfl⟩
      have hdays : key ≠ .trafficRetentionDays := fun heq => absurd (heq ▸ hruns) (by decide)
      have hmessage : key ≠ .maintenanceMessage := fun heq => absurd (heq ▸ hruns) (by decide)
      rw [put_settings, if_neg hmessage, put_settings, if_neg hdays]
    let next (cert : Text) (profile : TlsProfile) (suites : List Suite) : Save :=
      saveProxies form <| saveInspection form <| saveCollector form <|
        saveTls days cert profile suites
    change Ends state
      ((checked (tls surroundings form) fun (profile, suites) =>
        managementCert surroundings form fun cert =>
        acmeConfig form (next cert profile suites)).run works first) ↔ _
    by_cases hchecks : ChecksPass surroundings form works first
    · obtain ⟨profile, suites, accounts, hrun, haccounts⟩ := run_checks next hchecks
      have hsame : { first with accounts := accounts } = state ↔
          GeneralSame form state ∧ AccountSame form state := by
        rw [← hfirst]
        constructor
        · intro heq
          have hkept : accounts = state.accounts := congrArg State.accounts heq
          rw [hkept] at heq
          exact ⟨heq, haccounts.mp hkept⟩
        · rintro ⟨heq, hkept⟩
          rw [haccounts.mpr hkept]
          exact heq
      rw [hrun]
      exact ends_proxies ⟨hgeneral, hchecks⟩
        ⟨halike.settings, halike.limit, halike.trusted, halike.collector⟩ hsame
    · -- the checks read what the first stores leave as it was
      have hnot : ¬ ChecksPass surroundings form works state := hchecks
      rw [(stops_checks next hchecks).ends, hfirst, spares_iff_checks hgeneral hnot,
        follows_iff_synced fun h => hnot h.1.2,
        synced_congr halike.limit halike.trusted halike.collector halike.settings]
      rfl
  · rw [(stops_general hgeneral).ends, follows_iff_synced fun h => hgeneral h.1.1]
    exact and_congr_left' (iff_of_true (fun _ => rfl) (spares_of_not_stored hgeneral))

end Saves

section Cases

/-- One suite is offered, and no certificate serves. -/
def oneSuite : Surroundings where
  allSuites := [{ name := "TLS13_AES_128_GCM_SHA256".toList, tls13 := true }]
  toUppercase := Text.toAsciiUppercase
  toLowercase := Text.toAsciiLowercase
  validatePem := fun _ _ => .error []

/-- A form that names a suite this build does not have. -/
def unknownSuite : SettingsForm where
  trafficRetentionDays := some "30".toList
  maintenanceMessage := none
  tlsProfile := none
  tlsCiphers := some "RC4".toList
  managementCert := none
  acmeEmail := none
  acmeDirectory := none
  trustedProxies := none
  bodyInspectKb := none
  syslogEnabled := none
  syslogHost := none
  syslogPort := none

/-- A database no setting of which was ever stored. -/
def neverSaved : State where
  settings := fun _ => none
  accounts := []
  certs := fun _ => none
  trusted := []
  inspectionLimit := defaultInspectionLimit
  collector := none

/-- The suites are refused once the retention is stored. -/
theorem refused_save_stores :
    ¬ ∀ (surroundings : Surroundings) (form : SettingsForm) (works : Statement → Bool)
      (state : State), Synced state →
        Ends state ((postSettingsUpdate surroundings form).run works state) := by
  intro hall
  have hsynced : Synced neverSaved := ⟨rfl, rfl, rfl⟩
  have hends := (hall oneSuite unknownSuite (fun _ => true) neverSaved hsynced).1
  obtain ⟨message, htls⟩ : ∃ message, tls oneSuite unknownSuite = .error message := ⟨_, rfl⟩
  have hrun : (postSettingsUpdate oneSuite unknownSuite).run (fun _ => true) neverSaved =
      ((neverSaved.put .trafficRetentionDays (Text.formatInt 30)).put .maintenanceMessage [],
        .failed message) := by
    rw [postSettingsUpdate]
    exact (run_general rfl rfl ⟨⟨30, rfl⟩, ⟨[], rfl⟩, rfl, rfl⟩).trans (run_checked_error htls _)
  rw [hrun] at hends
  have hsame := congrArg (fun state : State => state.settings .trafficRetentionDays)
    (hends ⟨message, rfl⟩)
  contradiction

end Cases

end EasyWaf.Routes.Settings
