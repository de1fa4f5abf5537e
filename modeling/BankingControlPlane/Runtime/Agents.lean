import BankingControlPlane.Plane.Bank
import BankingControlPlane.Runtime.Screening

/-!
# The guards of the two agents

* `noFabricatedIds` : the guide's own check, of the settings an answer names;
* `inCustomerLanguage` : the banking agent's refusals, in Portuguese where the message reads like it;
* `guideGuards`, `bankingGuards` : what each agent mounts.
-/

namespace BankingControlPlane
open Text (Regex)

/-! ## The guide -/

namespace Guide

/-- The fields of `Settings`. -/
def settingsFields : List String :=
  ["llm_api_key", "model", "llm_provider", "llm_base_url", "prompt_version", "judge_model", "effort", "max_tokens",
    "model_prices", "database_url", "database_secret_arn", "confirmation_secret_arn", "control_plane_store",
    "confirmation_secret", "agent_base_url", "otel_exporter_otlp_endpoint", "otel_exporter_otlp_headers",
    "langfuse_ui_base_url", "langfuse_project_id", "otel_mode", "aws_region", "service_name", "identity_secret",
    "identity_mode", "jwt_issuer", "jwt_client_id", "customer_id", "bearer_token", "runtime_arn", "guardrails",
    "checkpointer", "agent"]

/-- Every setting and every service of the compose file. -/
def knownIdentifiers (services : List String) : List String :=
  settingsFields.map (fun field => "TRAIL_" ++ upper field) ++ services

def isSettingChar (c : Char) : Bool := c.isUpper || c.isDigit || c = '_'

/-- `_ENV_MENTION`. -/
def envMention (α : Alphabet) : Regex :=
  .sequence [α.edge, exactly "TRAIL_", .plus (.one isSettingChar), α.edge]

/-- Refuses answers naming a configuration this project does not have. -/
def noFabricatedIds (α : Alphabet) (services : List String) : Check := fun text =>
  ((envMention α).findAll text.toList).eraseDups.filterMap fun name =>
    if String.ofList name ∈ knownIdentifiers services then none
    else some {
      check := "fabricated_identifier"
      rule := "unknown_setting"
      detail := String.ofList name ++ " não existe neste repositório"
      evidence := evidence name }

def inputRefusal : String :=
  "Essa mensagem tenta reescrever minhas instruções, então não vou segui-la. Pergunte sobre o TRAIL e eu respondo."

def outputRefusal : String :=
  "Bloqueei a própria resposta: ela citava algo que não existe neste repositório, ou continha algo com formato de " ++
    "credencial. Reformule a pergunta e eu tento de novo."

def outputCheck (α : Alphabet) (services : List String) (apiKey : String) : Check :=
  allOf [secretLeakCheck α [apiKey], noFabricatedIds α services]

end Guide

def guideGuards (α : Alphabet) (services : List String) (apiKey : String) : GuardSpec where
  inputCheck := injectionCheck α
  inputReplacement := .text Guide.inputRefusal
  outputCheck := Guide.outputCheck α services apiKey
  outputReplacement := .text Guide.outputRefusal

/-! ## The banking assistant -/

namespace Banking

/-- `_PORTUGUESE_HINTS`. -/
def portugueseHints (α : Alphabet) : Regex :=
  α.whole (.choice [.sequence [α.said "cart", α.among "aã", α.said "o"],
    .sequence [α.said "confirma",
      .opt (.choice [α.said "r", .sequence [α.among "cç", α.among "aã", α.said "o"]])],
    α.said "envie", α.said "essa", α.said "gostaria",
    .sequence [α.said "instru", α.among "cç", α.among "oõ", α.said "es"],
    .sequence [α.said "manda", α.maybe "r"], α.said "meu", α.said "minha", α.said "mostre",
    .sequence [α.said "n", α.among "aã", α.said "o"], .sequence [α.said "obrigad", α.among "oa"], α.said "pode",
    α.said "pra", .sequence [α.said "quai", α.maybe "s"], α.said "quero", α.said "saldo", α.said "sem",
    α.said "sim", .sequence [α.said "voc", α.among "eê"]])

/-- English or Portuguese guard copy, without spending a model call. -/
def inCustomerLanguage (α : Alphabet) (text english portuguese : String) : String :=
  if ((portugueseHints α).search text.toList).isSome then portuguese else english

def inputRefusalEn : String :=
  "That message attempts to override my instructions, so I will not follow it. I can still help with balances, card " ++
    "transactions, or PIX."

def inputRefusalPt : String :=
  "Essa mensagem tenta mudar minhas instruções, então não vou segui-la. Ainda posso ajudar com saldo, cartão ou PIX."

def outputRefusalEn : String :=
  "I blocked my own response because it contained something shaped like a credential. Could you repeat the question?"

def outputRefusalPt : String :=
  "Bloqueei minha própria resposta porque ela continha algo com formato de credencial. Pode repetir a pergunta?"

def inputRefusal (α : Alphabet) (text : String) : String := inCustomerLanguage α text inputRefusalEn inputRefusalPt

def outputRefusal (α : Alphabet) (text : String) : String := inCustomerLanguage α text outputRefusalEn outputRefusalPt

end Banking

def bankingGuards (α : Alphabet) (apiKey : String) : GuardSpec where
  inputCheck := injectionCheck α
  inputReplacement := .of (Banking.inputRefusal α)
  outputCheck := secretLeakCheck α [apiKey]
  outputReplacement := .of (Banking.outputRefusal α)

end BankingControlPlane
