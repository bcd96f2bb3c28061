import CalendarStamp.Main
import CalendarStamp.Proofs.CalendarAddresses
import CalendarStamp.Proofs.CommandEffects
import CalendarStamp.Proofs.ExactNumerals
import CalendarStamp.Proofs.HexTexts
import CalendarStamp.Proofs.LastEvidence
import CalendarStamp.Proofs.LookupAddresses
import CalendarStamp.Proofs.MergedRecords
import CalendarStamp.Proofs.MovedKeys
import CalendarStamp.Proofs.PartialChains
import CalendarStamp.Proofs.RunnableChains
import CalendarStamp.Proofs.SavedSettings
import CalendarStamp.Proofs.ShownKeys
import CalendarStamp.Proofs.ShownTimes
import CalendarStamp.Proofs.UnattestedAnswers
import CalendarStamp.Proofs.UpgradeEffects
import CalendarStamp.Proofs.ViewTexts
